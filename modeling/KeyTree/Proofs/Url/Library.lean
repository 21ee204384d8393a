import KeyTree.Proofs.Url.Query
import KeyTree.Proofs.Url.Rewriting
import KeyTree.Url.Library

/-!
# Lawful libraries of addresses

Triggers rely on a few laws of a library of addresses: parameters that an address is given are those
that are read from it, they take the place of all others, and there may be fewer of them. The addresses
of this project obey these laws.
-/

namespace KeyTree

namespace UrlLibrary

/-- An address that has been read, or that has been given parameters since then. -/
inductive Made (library : UrlLibrary) : library.Address → Prop
  | parse {text : String} {url : library.Address} (h : library.parse text = .ok url) : Made library url
  | withParams {url built : library.Address} {params : Url.Params} (h : Made library url)
      (hbuilt : library.withParams url params = .ok built) : Made library built

/-- What is relied on in a library of addresses. -/
structure IsLawful (library : UrlLibrary) : Prop where
  isLawful_params : ∀ {url}, library.Made url → (library.params url).IsLawful
  withoutParam_eq : ∀ {url}, library.Made url → ∀ name,
    library.withoutParam url name = library.withParams url ((library.params url).remove name)
  withMerged_eq : ∀ {url}, library.Made url → ∀ new,
    library.withMerged url new = library.withParams url ((library.params url).merge new)
  params_withParams : ∀ {url built params}, library.Made url → params.IsLawful →
    library.withParams url params = .ok built → library.params built = params
  withParams_withParams : ∀ {url built params}, library.Made url →
    library.withParams url params = .ok built →
      ∀ others, library.withParams built others = library.withParams url others
  exists_withParams_filter : ∀ {url built params}, library.Made url →
    library.withParams url params = .ok built →
      ∀ p, ∃ fewer, library.withParams url (params.filter p) = .ok fewer

end UrlLibrary

namespace Url

theorem isRead_of_parse {text : String} {url : Url} (h : parse text = .ok url) : url.IsRead := by
  simp only [parse] at h
  split at h
  case isTrue => cases h
  case isFalse =>
    split at h
    case h_1 => cases h
    case h_2 => exact isRead_of_ofWritten h

variable {url built : Url} {params : Params}

/-! ## Addresses that carry parameters -/

/-- The query of an address that was given parameters. -/
def carried (params : Params) : Option (List Char) :=
  if params.isEmpty then none else some params.toQuery

theorem carried_getD (params : Params) : (carried params).getD [] = params.toQuery := by
  cases params with
  | nil => rfl
  | cons entry params => rfl

theorem percentEncode_carried (params : Params) :
    (carried params).map (percentEncode isQuerySafe) = carried params := by
  cases params with
  | nil => rfl
  | cons entry params => exact congrArg some (Params.percentEncode_toQuery _)

/-- An address that was given parameters in place of its query. -/
def carrying (url : Url) (params : Params) : Url := { url.settled with query := carried params }

theorem queryParams_carrying (url : Url) (h : params.IsLawful) :
    queryParams (carrying url params) = params := by
  rw [queryParams, carrying, carried_getD, Params.ofQuery_toQuery h]

theorem carrying_carrying (url : Url) (params others : Params) :
    carrying (carrying url params) others = carrying url others := by
  have hsettled : (carrying url params).settled =
      { url.settled.settled with query := carried params } := rfl
  rw [carrying, hsettled, settled_settled]
  rfl

theorem IsRead.carrying (h : url.IsRead) (params : Params) : (url.carrying params).IsRead := by
  have hread := h.settled (carried params)
  rw [percentEncode_carried] at hread
  exact hread

theorem Fits.carrying (h : url.Fits) (params : Params) : (url.carrying params).Fits :=
  ⟨h.settled.scheme, h.settled.authority, h.settled.path, h.settled.fragment⟩

/-- An address is given any parameters that are not too long. -/
theorem IsRead.withParams_eq (h : url.IsRead) (hfits : url.Fits) (params : Params) :
    url.withParams params =
      if lengthLimit < params.toQuery.length then .error (.partTooLong "query")
      else .ok (url.carrying params) := by
  rw [withParams, ← carried, h.withQuery_eq hfits, carried_getD, percentEncode_carried,
    Url.carrying]

theorem IsRead.withParams_eq_ok (h : url.IsRead) (hbuilt : url.withParams params = .ok built) :
    url.Fits ∧ params.toQuery.length ≤ lengthLimit ∧ built = url.carrying params := by
  obtain ⟨⟨⟩, hlengths, -⟩ := exists_of_bind_eq_ok hbuilt
  have hfits := fits_of_checkLengths hlengths
  rw [h.withParams_eq hfits] at hbuilt
  split at hbuilt
  case isTrue => cases hbuilt
  case isFalse hshort => exact ⟨hfits, Nat.le_of_not_lt hshort, (Except.ok.inj hbuilt).symm⟩

/-- Parameters that an address is given take the place of all others. -/
theorem IsRead.withParams_withParams (h : url.IsRead) (hbuilt : url.withParams params = .ok built)
    (others : Params) : built.withParams others = url.withParams others := by
  obtain ⟨hfits, -, rfl⟩ := h.withParams_eq_ok hbuilt
  rw [(h.carrying params).withParams_eq (hfits.carrying params), carrying_carrying,
    h.withParams_eq hfits]

/-- Fewer parameters are not longer. -/
theorem IsRead.exists_withParams_filter (h : url.IsRead) (hbuilt : url.withParams params = .ok built)
    (p : String × List String → Bool) : ∃ fewer, url.withParams (params.filter p) = .ok fewer := by
  obtain ⟨hfits, hshort, -⟩ := h.withParams_eq_ok hbuilt
  have hfewer := (Params.length_toQuery_filter_le params p).trans hshort
  refine ⟨url.carrying (params.filter p), ?_⟩
  rw [h.withParams_eq hfits, if_neg (Nat.not_lt.2 hfewer)]

/-! ## The laws -/

theorem isRead_of_made {url : library.Address} (h : library.Made url) : IsRead url := by
  induction h with
  | parse h => exact isRead_of_parse h
  | withParams _ hbuilt ih =>
    obtain ⟨-, -, rfl⟩ := IsRead.withParams_eq_ok ih hbuilt
    exact IsRead.carrying ih _

/-- The addresses of this project obey the laws. -/
theorem isLawful_library : library.IsLawful where
  isLawful_params _ := Params.isLawful_ofQuery _
  withoutParam_eq _ _ := rfl
  withMerged_eq _ _ := rfl
  params_withParams hmade hlawful hbuilt := by
    obtain ⟨-, -, rfl⟩ := (isRead_of_made hmade).withParams_eq_ok hbuilt
    exact queryParams_carrying _ hlawful
  withParams_withParams hmade hbuilt := (isRead_of_made hmade).withParams_withParams hbuilt
  exists_withParams_filter hmade hbuilt := (isRead_of_made hmade).exists_withParams_filter hbuilt

end Url

end KeyTree
