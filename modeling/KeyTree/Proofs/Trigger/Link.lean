import KeyTree.Proofs.Results
import KeyTree.Proofs.Url.Library
import KeyTree.Trigger.Link

/-!
# Links taken apart again

What is put into an address as the parameters of a trigger is taken out of it again, and what is left
is what is left of the address that it was put into. This is so for every lawful library of addresses.
-/

namespace KeyTree

namespace UrlLibrary.IsLawful

variable {library : UrlLibrary} (hlibrary : library.IsLawful) {url built left : library.Address}
  {params : Url.Params}

include hlibrary

/-- From an address that was given parameters they are taken out one after the other. -/
theorem foldlM_withoutParam_of_withParams (hmade : library.Made url) (hlawful : params.IsLawful)
    (hbuilt : library.withParams url params = .ok built) (names : List String) :
    names.foldlM library.withoutParam built =
      library.withParams url (names.foldl Url.Params.remove params) := by
  induction names generalizing built params with
  | nil => exact hbuilt.symm
  | cons name names ih =>
    obtain ⟨fewer, hfewer⟩ := hlibrary.exists_withParams_filter hmade hbuilt (·.1 != name)
    have hremoved : library.withoutParam built name = .ok fewer := by
      rw [hlibrary.withoutParam_eq (hmade.withParams hbuilt),
        hlibrary.params_withParams hmade hlawful hbuilt,
        hlibrary.withParams_withParams hmade hbuilt]
      exact hfewer
    rw [List.foldlM_cons, hremoved, List.foldl_cons]
    exact ih (hlawful.filter _) hfewer

/-- Parameters are taken out of an address unless the first one cannot be. -/
theorem foldlM_withoutParam (hmade : library.Made url) (name : String) (names : List String) :
    (name :: names).foldlM library.withoutParam url =
      library.withParams url ((library.params url).remove name) >>= fun _ ↦
        library.withParams url ((name :: names).foldl Url.Params.remove (library.params url)) := by
  rw [List.foldlM_cons, hlibrary.withoutParam_eq hmade]
  cases hleft : library.withParams url ((library.params url).remove name) with
  | error fault => rfl
  | ok left =>
    exact hlibrary.foldlM_withoutParam_of_withParams hmade
      ((hlibrary.isLawful_params hmade).filter _) hleft names

/-- If the first parameter can be taken out, so can all. -/
theorem exists_withParams_foldl_remove (hmade : library.Made url) {name : String}
    (hleft : library.withParams url (params.remove name) = .ok left) (names : List String) :
    ∃ rest, library.withParams url ((name :: names).foldl Url.Params.remove params) = .ok rest := by
  obtain ⟨rest, hrest⟩ := hlibrary.exists_withParams_filter hmade hleft
    fun entry ↦ !names.contains entry.1
  refine ⟨rest, ?_⟩
  rw [List.foldl_cons, Url.Params.foldl_remove_eq]
  exact hrest

end UrlLibrary.IsLawful

namespace Trigger

variable {library : UrlLibrary}

/-! ## Taking parameters out -/

/-- The parameters of a trigger that an address carries, each with its first value. -/
def triggerParams (library : UrlLibrary) (url : library.Address) : List (String × String) :=
  parameterNames.filterMap fun name ↦
    ((library.params url).first? name).map fun value ↦ (name, value)

theorem takeFrom_eq_map (url : library.Address) :
    takeFrom library url = (parameterNames.foldlM library.withoutParam url).map
      fun rest ↦ ⟨triggerParams library url, rest⟩ := by
  unfold takeFrom
  cases parameterNames.foldlM library.withoutParam url <;> rfl

theorem takeLink_of_parse {text : String} {url : library.Address}
    (h : library.parse text = .ok url) : takeLink library text = takeFrom library url := by
  rw [takeLink, h]
  rfl

section

variable (hlibrary : library.IsLawful) {url built : library.Address}

include hlibrary

/-- What is taken out of an address. Only the library may refuse the address without its key. -/
theorem takeFrom_eq (hmade : library.Made url) :
    takeFrom library url =
      library.withParams url ((library.params url).remove "key") >>= fun _ ↦
        (library.withParams url (parameterNames.foldl Url.Params.remove (library.params url))).map
          fun rest ↦ ⟨triggerParams library url, rest⟩ := by
  rw [takeFrom_eq_map, parameterNames, hlibrary.foldlM_withoutParam hmade]
  cases library.withParams url ((library.params url).remove "key") <;> rfl

/-- Parameters of a trigger that were merged into an address are taken out, and nothing else. -/
theorem takeFrom_of_merge (hmade : library.Made url) {new : List (String × String)}
    (hnew : Ordered.keys new = parameterNames)
    (hbuilt : library.withParams url ((library.params url).merge new) = .ok built) :
    ∃ rest, takeFrom library built = .ok ⟨new, rest⟩ ∧
      takeFrom library url =
        (library.withParams url ((library.params url).remove "key")).map
          fun _ ↦ ⟨triggerParams library url, rest⟩ := by
  have hlawful := (hlibrary.isLawful_params hmade).merge new
  have hparams : triggerParams library built = new := by
    rw [triggerParams, hlibrary.params_withParams hmade hlawful hbuilt, ← hnew]
    exact Url.Params.filterMap_first?_merge (by rw [hnew]; decide) _
  have hothers : parameterNames.foldl Url.Params.remove ((library.params url).merge new) =
      parameterNames.foldl Url.Params.remove (library.params url) :=
    Url.Params.foldl_remove_merge (hnew ▸ List.Subset.refl _) _
  -- The link was made with all parameters, so it can be made with those that are left.
  obtain ⟨rest, hrest⟩ := hlibrary.exists_withParams_filter hmade hbuilt
    fun entry ↦ !parameterNames.contains entry.1
  rw [← Url.Params.foldl_remove_eq, hothers] at hrest
  refine ⟨rest, ?_, ?_⟩
  · rw [takeFrom_eq_map, hlibrary.foldlM_withoutParam_of_withParams hmade hlawful hbuilt, hothers,
      hrest, hparams]
    rfl
  · rw [takeFrom_eq hlibrary hmade, hrest]
    cases library.withParams url ((library.params url).remove "key") <;> rfl

/-! ## Links -/

/--
What was put into an address is taken out of the link that was made, and what is left is what is left
of the address. Only if the library refuses the address without its key is nothing taken out of it.
-/
theorem takeLink_of_makeLink {base key value type : String}
    (h : makeLink library base key value type = .ok built) :
    ∃ kind url, kindOf (some type) = .ok kind ∧ library.parse base = .ok url ∧
      ∃ rest, takeFrom library built =
          .ok ⟨[("key", key), ("value", value), ("type", kind.name), ("action", "set")], rest⟩ ∧
        takeLink library base =
          (library.withParams url ((library.params url).remove "key")).map
            fun _ ↦ ⟨triggerParams library url, rest⟩ := by
  obtain ⟨kind, hkind, h⟩ := exists_of_bind_eq_ok h
  obtain ⟨url, hurl, h⟩ := exists_of_bind_eq_ok h
  have hparse := eq_ok_of_mapError hurl
  have hmerged := eq_ok_of_mapError h
  rw [hlibrary.withMerged_eq (.parse hparse)] at hmerged
  refine ⟨kind, url, eq_ok_of_mapError hkind, hparse, ?_⟩
  rw [takeLink_of_parse hparse]
  exact takeFrom_of_merge hlibrary (.parse hparse) rfl hmerged

end

/-- The link that is made on an address with a default port and a key. -/
def tabLink : Url where
  scheme := "http".toList
  userinfo := []
  host := "jar.example".toList
  port := none
  path := "/a/b".toList
  query := some "tab=1&key=a+b&value=1%262&type=text&action=set".toList
  fragment := some "top".toList

theorem takeLink_of_makeLink_tab :
    Url.library.IsLawful ∧
      makeLink Url.library "HTTP://Jar.example:80/a/./b?tab=1&key=old#top" "a b" "1&2" "" =
        .ok tabLink ∧
      ∃ kind url, kindOf (some "") = .ok kind ∧
        Url.library.parse "HTTP://Jar.example:80/a/./b?tab=1&key=old#top" = .ok url ∧
        ∃ rest, takeFrom Url.library tabLink =
            .ok ⟨[("key", "a b"), ("value", "1&2"), ("type", kind.name), ("action", "set")], rest⟩ ∧
          takeLink Url.library "HTTP://Jar.example:80/a/./b?tab=1&key=old#top" =
            (Url.library.withParams url ((Url.library.params url).remove "key")).map
              fun _ ↦ ⟨triggerParams Url.library url, rest⟩ := by
  have hmake : makeLink Url.library "HTTP://Jar.example:80/a/./b?tab=1&key=old#top" "a b" "1&2" "" =
      .ok tabLink := by
    cbv
  exact ⟨Url.isLawful_library, hmake, takeLink_of_makeLink Url.isLawful_library hmake⟩

/-! ## Parameters that are too long once they are encoded -/

theorem parse_query {query : List Char} (hlength : query.length < Url.lengthLimit)
    (hprint : ∀ c ∈ query, Url.isControl c = false) (hmark : '#' ∉ query) :
    Url.parse (String.ofList ('?' :: query)) =
      .ok ⟨[], [], [], none, [], some (Url.percentEncode Url.isQuerySafe query), none⟩ := by
  have hcontrol : ('?' :: query).find? Url.isControl = none := by
    rw [List.find?_eq_none, List.forall_mem_cons]
    exact ⟨by decide, fun c hc ↦ by rw [hprint c hc]; exact Bool.false_ne_true⟩
  have hinside : ∀ c ∈ query, (c != '#') = true := fun c hc ↦
    bne_iff_ne.2 fun heq ↦ hmark (heq ▸ hc)
  have hbehind : Url.splitBehind '?' (· != '#') ('?' :: query) = (some query, []) := by
    rw [Url.splitBehind, if_pos rfl, List.takeWhile_eq_self_iff.2 hinside,
      List.dropWhile_eq_nil_iff.2 hinside]
  have hsplit : Url.split ('?' :: query) =
      ⟨[], [], [], (Url.splitBehind '?' (· != '#') ('?' :: query)).1,
        (Url.splitBehind '#' (fun _ ↦ true)
          (Url.splitBehind '?' (· != '#') ('?' :: query)).2).1⟩ := rfl
  rw [Url.parse, String.toList_ofList, if_neg (by rw [List.length_cons]; omega), hcontrol]
  dsimp only
  rw [hsplit, hbehind]
  rfl

/-- A value of quotation marks, each of which takes three characters in a query. -/
def marks (count : Nat) : List Char := List.replicate count '"'

/-- An address with such a value. -/
def crowded (count : Nat) : String := String.ofList ('?' :: ("value=".toList ++ marks count))

/-- The parameters of such an address. -/
def crowdedParams (count : Nat) : Url.Params := [("value", [String.ofList (marks count)])]

theorem percentEncode_marks {isSafe : Char → Bool} (h : Url.isEncoded isSafe '"' = false)
    (count : Nat) :
    Url.percentEncode isSafe (marks count) = (List.replicate count ['%', '2', '2']).flatten := by
  have hmark : (if Url.isEncoded isSafe '"' = true then ['"'] else Url.percentChar '"') =
      ['%', '2', '2'] := by
    rw [h]
    decide
  rw [Url.percentEncode, marks, List.flatMap_replicate]
  exact congrArg (fun s ↦ (List.replicate count s).flatten) hmark

theorem toQuery_crowdedParams (count : Nat) :
    (crowdedParams count).toQuery =
      "value=".toList ++ (List.replicate count ['%', '2', '2']).flatten := by
  have hvalue : Url.Params.encodePart (String.ofList (marks count)) =
      (List.replicate count ['%', '2', '2']).flatten := by
    rw [Url.Params.encodePart, String.toList_ofList, percentEncode_marks (by decide),
      List.map_flatten, List.map_replicate]
    rfl
  have hquery : (crowdedParams count).toQuery =
      Url.Params.encodePart "value" ++ '=' :: Url.Params.encodePart (String.ofList (marks count)) :=
    rfl
  rw [hquery, hvalue]
  rfl

theorem length_toQuery_crowdedParams (count : Nat) :
    (crowdedParams count).toQuery.length = 6 + count * 3 := by
  rw [toQuery_crowdedParams, List.length_append, List.length_flatten, List.map_replicate,
    List.sum_replicate_nat]
  rfl

theorem parse_crowded {count : Nat} (h : 6 + count < Url.lengthLimit) :
    Url.parse (crowded count) =
      .ok (Url.carrying ⟨[], [], [], none, [], none, none⟩ (crowdedParams count)) := by
  have hname : ("value=".toList.all fun c ↦ !Url.isControl c && c != '#') = true := by decide
  have hchars (c : Char) (hc : c ∈ "value=".toList ++ marks count) :
      (!Url.isControl c && c != '#') = true := by
    rcases List.mem_append.1 hc with hc | hc
    · exact List.all_eq_true.1 hname c hc
    · rw [List.eq_of_mem_replicate hc]
      decide
  have hlength : ("value=".toList ++ marks count).length < Url.lengthLimit := by
    have hsix : "value=".toList.length = 6 := by decide
    rw [List.length_append, marks, List.length_replicate, hsix]
    exact h
  have hencoded : Url.percentEncode Url.isQuerySafe ("value=".toList ++ marks count) =
      (crowdedParams count).toQuery := by
    have hname' : Url.percentEncode Url.isQuerySafe "value=".toList = "value=".toList := by decide
    rw [Url.percentEncode_append, percentEncode_marks (by decide), toQuery_crowdedParams, hname']
  have hcontrol (c : Char) (hc : c ∈ "value=".toList ++ marks count) : Url.isControl c = false := by
    simpa using ((Bool.and_eq_true _ _).mp (hchars c hc)).1
  have hmark : '#' ∉ "value=".toList ++ marks count := fun hc ↦ absurd (hchars '#' hc) (by decide)
  have hparse := parse_query hlength hcontrol hmark
  have hcarried : Url.carried (crowdedParams count) = some (crowdedParams count).toQuery := rfl
  rw [hencoded] at hparse
  rw [Url.carrying, hcarried]
  exact hparse

theorem exists_parse_crowded {count : Nat} (h : 6 + count < Url.lengthLimit) :
    ∃ url, Url.library.parse (crowded count) = .ok url := ⟨_, parse_crowded h⟩

/-- A link is made on an address that is too crowded for taking its own parameters out. -/
theorem makeLink_crowded {count : Nat} (h : 6 + count < Url.lengthLimit)
    (hlong : Url.lengthLimit < 6 + count * 3) :
    (∃ built, makeLink Url.library (crowded count) "k" "v" "" = .ok built) ∧
      takeLink Url.library (crowded count) = .error (.partTooLong "query") := by
  have hparse : Url.library.parse (crowded count) = _ := parse_crowded h
  have hread := Url.isRead_of_parse hparse
  have hlawful : (crowdedParams count).IsLawful :=
    ⟨List.nodup_singleton _, List.forall_mem_singleton.2 (List.cons_ne_nil _ _)⟩
  have hparams := Url.queryParams_carrying ⟨[], [], [], none, [], none, none⟩ hlawful
  have hfits : (Url.carrying ⟨[], [], [], none, [], none, none⟩ (crowdedParams count)).Fits :=
    .carrying ⟨by decide, by decide, by decide, by decide⟩ _
  generalize Url.carrying ⟨[], [], [], none, [], none, none⟩ (crowdedParams count) = url at *
  constructor
  · have hmake : makeLink Url.library (crowded count) "k" "v" "" =
        (url.withParams (url.queryParams.merge
          [("key", "k"), ("value", "v"), ("type", "text"), ("action", "set")])).mapError .url := by
      rw [makeLink, hparse]
      rfl
    have hmerged : (crowdedParams count).merge
        [("key", "k"), ("value", "v"), ("type", "text"), ("action", "set")] =
        [("value", ["v"]), ("key", ["k"]), ("type", ["text"]), ("action", ["set"])] := rfl
    rw [hmake, hparams, hmerged, hread.withParams_eq hfits, if_neg (by decide)]
    exact ⟨_, rfl⟩
  · have hremoved : url.withParams (url.queryParams.remove "key") =
        .error (.partTooLong "query") := by
      have hsame : (crowdedParams count).remove "key" = crowdedParams count := rfl
      rw [← length_toQuery_crowdedParams] at hlong
      rw [hread.withParams_eq hfits, hparams, hsame, if_pos hlong]
    rw [takeLink_of_parse hparse, takeFrom_eq Url.isLawful_library (.parse hparse)]
    exact congrArg (· >>= _) hremoved

theorem exists_link_made :
    (∃ built, makeLink Url.library (crowded 22000) "k" "v" "" = .ok built) ∧
      takeLink Url.library (crowded 22000) = .error (.partTooLong "query") :=
  makeLink_crowded (by decide) (by decide)

end Trigger

end KeyTree
