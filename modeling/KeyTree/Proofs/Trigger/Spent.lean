import KeyTree.Proofs.Trigger.Link
import KeyTree.Session

/-!
# Links that are spent

Taking the parameters of a trigger out of an address takes all of their values, and leaves every other
parameter its values. What is left carries no trigger, so taking it apart again leaves it as it is, and
opening it changes nothing. This is so for every lawful library of addresses.
-/

namespace KeyTree

namespace Trigger

variable {library : UrlLibrary} {url left rest : library.Address}

/-! ## What is left -/

/-- The parameters of an address that are none of a trigger. -/
def otherParams (library : UrlLibrary) (url : library.Address) : Url.Params :=
  (library.params url).filter fun entry ↦ !parameterNames.contains entry.1

theorem filter_otherParams (url : library.Address) :
    (otherParams library url).filter (fun entry ↦ !parameterNames.contains entry.1) =
      otherParams library url := by
  rw [otherParams, List.filter_filter]
  simp only [Bool.and_self]

/-- No value of a trigger's parameter is left. -/
theorem triggerParams_of_params (hrest : library.params rest = otherParams library url) :
    triggerParams library rest = [] := by
  apply List.filterMap_eq_nil_iff.2
  intro name hname
  rw [hrest, Url.Params.first?, otherParams,
    Ordered.get?_filter fun name ↦ !parameterNames.contains name, List.contains_iff_mem.2 hname]
  rfl

section

variable (hlibrary : library.IsLawful)

include hlibrary

/-- An address without its key is an address without any parameter of a trigger. -/
theorem exists_rest (hmade : library.Made url)
    (hleft : library.withParams url ((library.params url).remove "key") = .ok left) :
    ∃ rest, library.withParams url (otherParams library url) = .ok rest ∧
      takeFrom library url = .ok ⟨triggerParams library url, rest⟩ := by
  obtain ⟨rest, hrest⟩ := hlibrary.exists_withParams_foldl_remove hmade hleft
    ["value", "type", "action"]
  have hothers : parameterNames.foldl Url.Params.remove (library.params url) =
      otherParams library url := Url.Params.foldl_remove_eq _ _
  refine ⟨rest, ?_, ?_⟩
  · rw [← hothers]
    exact hrest
  · rw [takeFrom_eq hlibrary hmade, hleft, parameterNames, hrest]
    rfl

theorem params_of_rest (hmade : library.Made url)
    (hrest : library.withParams url (otherParams library url) = .ok rest) :
    library.params rest = otherParams library url :=
  hlibrary.params_withParams hmade ((hlibrary.isLawful_params hmade).filter _) hrest

/-- What is left is taken apart once more, and stays as it is. -/
theorem takeFrom_of_rest (hmade : library.Made url)
    (hrest : library.withParams url (otherParams library url) = .ok rest) :
    takeFrom library rest = .ok ⟨[], rest⟩ := by
  have hlawful : (otherParams library url).IsLawful := (hlibrary.isLawful_params hmade).filter _
  rw [takeFrom_eq_map, hlibrary.foldlM_withoutParam_of_withParams hmade hlawful hrest,
    Url.Params.foldl_remove_eq, filter_otherParams, hrest,
    triggerParams_of_params (params_of_rest hlibrary hmade hrest)]
  rfl

end

end Trigger

/-! ## Opening what is left -/

namespace Session

variable {library : UrlLibrary}

/-- The address to go on with is what is left of the link. -/
theorem rest_of_useLink {Address : Type} {taken : Trigger.Link Address} {s s' : Session}
    {effect : Trigger.Effect} {entry : Address}
    (h : s.useLink (.ok taken) = (.ok (effect, entry), s')) : entry = taken.rest := by
  obtain ⟨heffect, -⟩ := Prod.mk.inj h
  obtain ⟨_, -, hpair⟩ := exists_of_map_eq_ok heffect
  exact (Prod.mk.inj hpair).2.symm

/-- An address that carries no trigger does nothing and tells nothing. -/
theorem openAddress_of_nil {url rest : library.Address}
    (h : Trigger.takeFrom library url = .ok ⟨[], rest⟩) (s : Session) :
    s.openAddress library url = (.ok (⟨s.root, none, none⟩, rest), s) := by
  rw [openAddress, h]
  rfl

end Session

namespace Trigger

variable {library : UrlLibrary}

/--
A link gives the first value of each parameter of a trigger that its address has. What is left of it
has no value of these, all values of every other name, and nothing more to be taken: to open it does
nothing and tells nothing, whatever opening the link has done. Only an address that the library refuses
without its key is refused, for the same reason.
-/
theorem takeLink_spent (hlibrary : library.IsLawful) {text : String} {url : library.Address}
    (h : library.parse text = .ok url) :
    (∀ fault, library.withParams url ((library.params url).remove "key") = .error fault →
      takeLink library text = .error fault) ∧
    ∀ left, library.withParams url ((library.params url).remove "key") = .ok left →
      ∃ rest,
        takeLink library text = .ok ⟨parameterNames.filterMap fun name ↦
          ((library.params url).first? name).map fun value ↦ (name, value), rest⟩ ∧
        library.params rest =
          (library.params url).filter (fun entry ↦ entry.1 ∉ ["key", "value", "type", "action"]) ∧
        takeFrom library rest = .ok ⟨[], rest⟩ ∧
        ∀ (s s' : Session) (effect : Effect) (entry : library.Address),
          s.openLink library text = (.ok (effect, entry), s') →
            s'.openAddress library entry = (.ok (⟨s'.root, none, none⟩, entry), s') := by
  have hmade : library.Made url := .parse h
  have htake := takeLink_of_parse h
  constructor
  · intro fault hfault
    rw [htake, takeFrom_eq hlibrary hmade, hfault]
    rfl
  · intro left hleft
    obtain ⟨rest, hrest, htaken⟩ := exists_rest hlibrary hmade hleft
    have hagain := takeFrom_of_rest hlibrary hmade hrest
    refine ⟨rest, htake.trans htaken, ?_, hagain, ?_⟩
    · rw [params_of_rest hlibrary hmade hrest, otherParams]
      refine List.filter_congr fun entry _ ↦ ?_
      rw [List.contains_eq_mem]
      exact decide_not.symm
    · intro s s' effect entry hopen
      rw [Session.openLink, htake, htaken] at hopen
      obtain rfl := Session.rest_of_useLink hopen
      exact Session.openAddress_of_nil hagain s'

/-- A link that gives a key twice, once with an encoded letter in its name, and other names between. -/
def repeatedLink : String :=
  "HTTP://Jar.example:80/a/./b?tab=1&%6Bey=x+y&type=number&tab=2&key=old#top"

/-- The address that it spells. -/
def repeatedUrl : Url where
  scheme := "http".toList
  userinfo := []
  host := "jar.example".toList
  port := some 80
  path := "/a/b".toList
  query := some "tab=1&%6Bey=x+y&type=number&tab=2&key=old".toList
  fragment := some "top".toList

theorem takeLink_spent_repeated :
    Url.library.IsLawful ∧ Url.library.parse repeatedLink = .ok repeatedUrl ∧
    ∃ rest : Url, takeLink Url.library repeatedLink = .ok ⟨[("key", "x y"), ("type", "number")], rest⟩ ∧
      rest.queryParams = [("tab", ["1", "2"])] ∧
      takeFrom Url.library rest = .ok ⟨[], rest⟩ ∧
      ∀ (s s' : Session) (effect : Effect) (entry : Url),
        s.openLink Url.library repeatedLink = (.ok (effect, entry), s') →
          s'.openAddress Url.library entry = (.ok (⟨s'.root, none, none⟩, entry), s') := by
  have hparse : Url.library.parse repeatedLink = .ok repeatedUrl := by cbv
  have hparams : repeatedUrl.queryParams =
      [("tab", ["1", "2"]), ("key", ["x y", "old"]), ("type", ["number"])] := by
    decide +kernel
  have hleft : ∃ left, repeatedUrl.withParams (repeatedUrl.queryParams.remove "key") = .ok left := by
    rw [hparams]
    exact ⟨_, by cbv⟩
  obtain ⟨left, hleft⟩ := hleft
  obtain ⟨rest, htake, hrest, hagain, hopen⟩ :=
    (takeLink_spent Url.isLawful_library hparse).2 left hleft
  have hvalues : (parameterNames.filterMap fun name ↦
      (repeatedUrl.queryParams.first? name).map fun value ↦ (name, value)) =
      [("key", "x y"), ("type", "number")] := by
    rw [hparams]
    decide +kernel
  refine ⟨Url.isLawful_library, hparse, rest, ?_, ?_, hagain, hopen⟩
  · rw [← hvalues]
    exact htake
  · refine Eq.trans hrest ?_
    change repeatedUrl.queryParams.filter _ = _
    rw [hparams]
    decide +kernel

/-- An address may be accepted and not be taken apart: its value is too long once it is written anew. -/
theorem exists_link_not_taken :
    (∃ url, Url.library.parse (crowded 22000) = .ok url) ∧
      takeLink Url.library (crowded 22000) = .error (.partTooLong "query") :=
  ⟨exists_parse_crowded (by decide), (makeLink_crowded (by decide) (by decide)).2⟩

end Trigger

end KeyTree
