import KeyTree.Proofs.Ordered
import KeyTree.Proofs.Results
import KeyTree.Proofs.Tree.Lookup
import KeyTree.Proofs.Tree.Names
import KeyTree.Proofs.Tree.Put
import KeyTree.Trigger.Basic

/-!
# Triggers that are used up

A trigger takes its parameters out of the mapping they come in before it looks at any of them. So it
is used up whether it is refused or not, and what is left does nothing. It is refused for its type or
for its key, which may be no path or lead too deep, and never for its value.
-/

namespace KeyTree.Trigger

/-! ## What a trigger does -/

/-- The path and the payload that a trigger asks for. -/
def asked (key : String) (type value : Option String) :
    Except TriggerFault (Path × Payload Node) := do
  let kind ← kindOf type
  let path ← (Path.parse key).mapError .path
  let payload ← (kind.coerce (rawValue (value.getD "") kind)).mapError .edit
  return (path, payload)

/-- What comes of putting what a trigger asks for. -/
def effectOf (supply : Supply) (root : Forest) (key : String) (asked : Path × Payload Node) :
    Except TriggerFault (Effect × Supply) :=
  ((root.boundedPut supply asked.1 asked.2).mapError fun _ ↦ .tooDeep).map
    fun (root, outcome, supply) ↦
      (⟨root, some outcome, some (outcome.acknowledgement key)⟩, supply)

/-- What a trigger does that has this key, type and value. -/
def act (supply : Supply) (root : Forest) (key type value : Option String) :
    Except TriggerFault (Effect × Supply) :=
  match key with
  | none => .ok (⟨root, none, none⟩, supply)
  | some key => asked key type value >>= effectOf supply root key

theorem apply_eq_act (supply : Supply) (root : Forest) (params : Params) :
    apply supply root params = act supply root (nonempty? params "key")
      (nonempty? params "type") (nonempty? params "value") := by
  unfold apply
  cases nonempty? params "key" with
  | none => rfl
  | some key =>
    rw [act, asked]
    dsimp only
    cases kindOf (nonempty? params "type") with
    | error fault => rfl
    | ok kind =>
      cases Path.parse key with
      | error fault => rfl
      | ok path =>
        dsimp only [bind, Except.bind, Except.mapError]
        cases kind.coerce (rawValue ((nonempty? params "value").getD "") kind) with
        | error fault => rfl
        | ok payload =>
          change _ = effectOf supply root key (path, payload)
          unfold effectOf
          dsimp only
          cases root.boundedPut supply path payload <;> rfl

/-! ## Taking parameters out -/

/-- Takes a parameter out of a mapping and gives its text, unless that is empty. -/
def takeOut (name : String) : StateM Params (Option String) :=
  fun params ↦ (nonempty? params name, Ordered.erase name params)

/-- Takes a trigger out of a mapping and applies it. -/
def consume (supply : Supply) (root : Forest) :
    StateM Params (Except TriggerFault (Effect × Supply)) := do
  let key ← takeOut "key"
  let value ← takeOut "value"
  let type ← takeOut "type"
  let _ ← takeOut "action"
  return act supply root key type value

theorem nonempty?_erase {name other : String} (h : other ≠ name) (params : Params) :
    nonempty? (Ordered.erase other params) name = nonempty? params name := by
  rw [nonempty?, Ordered.get?_erase_of_ne h, nonempty?]

theorem erase_parameters (params : Params) :
    Ordered.erase "action" (Ordered.erase "type" (Ordered.erase "value"
      (Ordered.erase "key" params))) = remaining params := by
  simp only [Ordered.erase, List.filter_filter, remaining, parameterNames]
  refine List.filter_congr fun entry _ ↦ ?_
  simp only [List.contains_cons, List.contains_nil, Bool.or_false, Bool.not_or, Bool.and_assoc,
    Bool.and_comm, Bool.and_left_comm]

/-- Whatever a trigger does, its parameters are taken out and all others stay. -/
theorem run_consume (supply : Supply) (root : Forest) (params : Params) :
    (consume supply root).run params = (apply supply root params, remaining params) := by
  have hrun : (consume supply root).run params =
      (act supply root (nonempty? params "key")
        (nonempty? (Ordered.erase "value" (Ordered.erase "key" params)) "type")
        (nonempty? (Ordered.erase "key" params) "value"),
      Ordered.erase "action" (Ordered.erase "type" (Ordered.erase "value"
        (Ordered.erase "key" params)))) := rfl
  rw [hrun, nonempty?_erase (by decide), nonempty?_erase (by decide),
    nonempty?_erase (by decide), erase_parameters, apply_eq_act]

theorem nonempty?_remaining {name : String} (h : name ∈ parameterNames) (params : Params) :
    nonempty? (remaining params) name = none := by
  have hout : (!parameterNames.contains name) = false := by
    rw [List.contains_iff_mem.2 h]
    rfl
  rw [nonempty?, remaining, Ordered.get?_filter fun name ↦ !parameterNames.contains name, hout]
  rfl

theorem remaining_remaining (params : Params) : remaining (remaining params) = remaining params := by
  rw [remaining, List.filter_eq_self]
  exact fun entry hentry ↦ (List.mem_filter.1 hentry).2

/-! ## Refusals -/

/-- The types that a trigger may ask for by name. -/
def typeNames : List String := ["text", "number", "boolean", "dictionary", "list"]

/-- Why a trigger with a key and a type is refused, whatever its value is. -/
inductive Refuses (key : String) (type : Option String) : TriggerFault → Prop
  | type {name : String} (htype : type = some name) (hunknown : name ∉ typeNames) :
      Refuses key type (.unsupportedType name)
  | path {before after : List (List Char)} {segment : List Char}
      (htype : ∀ name, type = some name → name ∈ typeNames)
      (hfields : Text.fieldList '.' key.toList = before ++ segment :: after)
      (hbefore : ∀ field ∈ before, Path.isSegment field = true)
      (hsegment : Path.isSegment segment = false) :
      Refuses key type (.path ⟨key, String.ofList segment⟩)

/-- A key leads too deep in a tree if putting something at its path takes more calls than fit on the
stack. -/
def LeadsTooDeep (root : Forest) (key : String) (type : Option String) : Prop :=
  (∀ name, type = some name → name ∈ typeNames) ∧ ∃ path, Path.parse key = .ok path ∧
    callLimit < root.putCalls path.head path.tail

/-- The kinds that a trigger may ask for are those with the names. -/
theorem name_mem_typeNames {kind : Kind} : kind.name ∈ typeNames ↔ isTriggerKind kind = true := by
  cases kind <;> decide

theorem kindOf_of_not_mem {name : String} (hempty : name ≠ "") (h : name ∉ typeNames) :
    kindOf (some name) = .error (.unsupportedType name) := by
  have hnone : (Kind.ofName? name).filter isTriggerKind = none := by
    rw [Option.filter_eq_none_iff]
    intro kind hkind htrigger
    rw [← Kind.name_of_ofName? hkind] at h
    exact h (name_mem_typeNames.2 htrigger)
  unfold kindOf
  split
  case h_1 heq => cases heq
  case h_2 heq => exact absurd (Option.some.inj heq) hempty
  case h_3 heq =>
    obtain rfl := Option.some.inj heq
    simp only [hnone]

/-- A type that is given is one of the names, or is refused. -/
theorem kindOf_spec {type : Option String} (hempty : type ≠ some "") :
    ((∀ name, type = some name → name ∈ typeNames) ∧ ∃ kind, kindOf type = .ok kind) ∨
      ∃ name, type = some name ∧ name ∉ typeNames ∧
        kindOf type = .error (.unsupportedType name) := by
  cases type with
  | none =>
    refine .inl ⟨?_, .text, rfl⟩
    intro name h
    cases h
  | some name =>
    by_cases hmem : name ∈ typeNames
    · refine .inl ⟨fun name' h ↦ Option.some.inj h ▸ hmem, ?_⟩
      simp only [typeNames, List.mem_cons, List.not_mem_nil, or_false] at hmem
      rcases hmem with rfl | rfl | rfl | rfl | rfl <;> exact ⟨_, rfl⟩
    · exact .inr ⟨name, rfl, hmem, kindOf_of_not_mem (fun h ↦ hempty (congrArg some h)) hmem⟩

/-- Every text is the value of every kind that a trigger may ask for. -/
theorem exists_coerce_rawValue (value : String) (kind : Kind) :
    ∃ payload, kind.coerce (rawValue value kind) = .ok payload := by
  cases kind with
  | text | number | boolean | dictionary | list | expression => exact ⟨_, rfl⟩

/-- A kind leaves only the key to be refused. -/
theorem exists_asked_of_kindOf (key : String) {type : Option String} {kind : Kind}
    (h : kindOf type = .ok kind) (value : Option String) : ∃ payload,
      asked key type value =
        ((Path.parse key).mapError .path).map fun path ↦ (path, payload) := by
  obtain ⟨payload, hpayload⟩ := exists_coerce_rawValue (value.getD "") kind
  refine ⟨payload, ?_⟩
  rw [asked, h]
  dsimp only [bind, Except.bind]
  rw [hpayload]
  cases Path.parse key <;> rfl

theorem asked_eq_error_iff {key : String} {type : Option String} (hempty : type ≠ some "")
    (value : Option String) {fault : TriggerFault} :
    asked key type value = .error fault ↔ Refuses key type fault := by
  rcases kindOf_spec hempty with ⟨hmem, kind, hkind⟩ | ⟨name, rfl, hmem, hkind⟩
  · obtain ⟨payload, hasked⟩ := exists_asked_of_kindOf key hkind value
    rw [hasked, map_eq_error_iff, mapError_eq_error_iff]
    constructor
    · rintro ⟨pathFault, hparse, rfl⟩
      obtain ⟨before, segment, after, hfields, hbefore, hsegment, rfl⟩ :=
        Path.parse_eq_error_iff.1 hparse
      exact .path hmem hfields hbefore hsegment
    · intro h
      cases h with
      | type htype hunknown => exact absurd (hmem _ htype) hunknown
      | path htype hfields hbefore hsegment =>
        exact ⟨_, Path.parse_eq_error_iff.2 ⟨_, _, _, hfields, hbefore, hsegment, rfl⟩, rfl⟩
  · have hasked : asked key (some name) value = .error (.unsupportedType name) := by
      rw [asked, hkind]
      rfl
    rw [hasked]
    constructor
    · intro h
      rw [← Except.error.inj h]
      exact .type rfl hmem
    · intro h
      cases h with
      | type htype hunknown => rw [Option.some.inj htype]
      | path htype => exact absurd (htype name rfl) hmem

/-- What is asked for is a payload at the path of the key. -/
theorem exists_asked_iff {key : String} {type : Option String} (hempty : type ≠ some "")
    (value : Option String) {path : Path} :
    (∃ payload, asked key type value = .ok (path, payload)) ↔
      (∀ name, type = some name → name ∈ typeNames) ∧ Path.parse key = .ok path := by
  rcases kindOf_spec hempty with ⟨hmem, kind, hkind⟩ | ⟨name, rfl, hmem, hkind⟩
  · obtain ⟨payload, hasked⟩ := exists_asked_of_kindOf key hkind value
    rw [hasked, and_iff_right hmem]
    cases Path.parse key with
    | error fault => exact iff_of_false (fun ⟨_, h⟩ ↦ by cases h) fun h ↦ by cases h
    | ok parsed =>
      constructor
      · rintro ⟨_, h⟩
        rw [(Prod.mk.inj (Except.ok.inj h)).1]
      · intro h
        rw [Except.ok.inj h]
        exact ⟨payload, rfl⟩
  · rw [asked, hkind]
    exact iff_of_false (fun ⟨_, h⟩ ↦ by cases h) fun h ↦ hmem (h.1 name rfl)

theorem effectOf_eq_error_iff {supply : Supply} {root : Forest} {key : String} {path : Path}
    {payload : Payload Node} {fault : TriggerFault} :
    effectOf supply root key (path, payload) = .error fault ↔
      callLimit < root.putCalls path.head path.tail ∧ fault = .tooDeep := by
  unfold effectOf Forest.boundedPut
  split
  case isTrue h => exact iff_of_false (fun heq ↦ by cases heq) fun hlt ↦ Nat.not_le.2 hlt.1 h
  case isFalse h =>
    rw [and_iff_right (Nat.lt_of_not_le h)]
    exact ⟨fun heq ↦ (Except.error.inj heq).symm, fun heq ↦ congrArg Except.error heq.symm⟩

theorem nonempty?_ne_empty (params : Params) (name : String) : nonempty? params name ≠ some "" := by
  intro h
  have hsome := (Option.filter_eq_some_iff.1 h).2
  cases hsome

/-- A trigger is refused if it has a key, and its type or the key is at fault. -/
theorem apply_eq_error_iff {supply : Supply} {root : Forest} {params : Params}
    {fault : TriggerFault} : apply supply root params = .error fault ↔
      ∃ key, nonempty? params "key" = some key ∧
        (Refuses key (nonempty? params "type") fault ∨
          LeadsTooDeep root key (nonempty? params "type") ∧ fault = .tooDeep) := by
  rw [apply_eq_act]
  cases nonempty? params "key" with
  | none => exact iff_of_false (fun h ↦ by cases h) (fun ⟨_, h, _⟩ ↦ by cases h)
  | some key =>
    have htype := nonempty?_ne_empty params "type"
    generalize nonempty? params "type" = type at htype
    generalize nonempty? params "value" = value
    simp only [Option.some.injEq, exists_eq_left']
    rw [act, bind_eq_error_iff, asked_eq_error_iff htype]
    refine or_congr_right ⟨?_, ?_⟩
    · rintro ⟨⟨path, payload⟩, hasked, heffect⟩
      obtain ⟨hnames, hpath⟩ := (exists_asked_iff htype value).1 ⟨payload, hasked⟩
      obtain ⟨hdeep, hfault⟩ := effectOf_eq_error_iff.1 heffect
      exact ⟨⟨hnames, path, hpath, hdeep⟩, hfault⟩
    · rintro ⟨⟨hnames, path, hpath, hdeep⟩, hfault⟩
      obtain ⟨payload, hasked⟩ := (exists_asked_iff htype value).2 ⟨hnames, hpath⟩
      exact ⟨(path, payload), hasked, effectOf_eq_error_iff.2 ⟨hdeep, hfault⟩⟩

/-- A key with no more segments than calls fit on the stack leads nowhere too deep. -/
theorem not_leadsTooDeep {root : Forest} {key : String} {type : Option String} {path : Path}
    (hpath : Path.parse key = .ok path) (hlength : path.tail.length < callLimit) :
    ¬ LeadsTooDeep root key type := by
  rintro ⟨-, path', hpath', hdeep⟩
  obtain rfl := Except.ok.inj (hpath'.symm.trans hpath)
  have hcalls := Forest.putCalls_le root path'.head path'.tail
  omega

/-- A trigger without a key does nothing. -/
theorem apply_of_no_key (supply : Supply) (root : Forest) {params : Params}
    (h : nonempty? params "key" = none) :
    apply supply root params = .ok (⟨root, none, none⟩, supply) := by
  rw [apply_eq_act, h]
  rfl

/--
A trigger is used up whatever happens: its parameters are taken out and the others stay in order. It
is refused for its type or for its key and for nothing else, as every text is a value of every kind. A
key that is a path is refused only if it leads too deep, which takes more segments than calls fit on
the stack. What is left of a trigger leaves every tree as it is.
-/
theorem consume_spec (supply : Supply) (root : Forest) (params : Params) :
    (consume supply root).run params = (apply supply root params, remaining params) ∧
      remaining params =
        params.filter (fun entry ↦ entry.1 ∉ ["key", "value", "type", "action"]) ∧
      (∀ fault, apply supply root params = .error fault ↔
        ∃ key, nonempty? params "key" = some key ∧
          (Refuses key (nonempty? params "type") fault ∨
            LeadsTooDeep root key (nonempty? params "type") ∧ fault = .tooDeep)) ∧
      (∀ key type path, Path.parse key = .ok path → path.tail.length < callLimit →
        ¬ LeadsTooDeep root key type) ∧
      (∀ value kind, isTriggerKind kind = true →
        ∃ payload, kind.coerce (rawValue value kind) = .ok payload) ∧
      ∀ supply' root', (consume supply' root').run (remaining params) =
        (.ok (⟨root', none, none⟩, supply'), remaining params) := by
  refine ⟨run_consume supply root params, ?_, fun fault ↦ apply_eq_error_iff,
    fun key type path ↦ not_leadsTooDeep, ?_, ?_⟩
  · refine List.filter_congr fun entry _ ↦ ?_
    rw [List.contains_eq_mem]
    exact decide_not.symm
  · intro value kind _
    exact exists_coerce_rawValue value kind
  · intro supply' root'
    have hkey : nonempty? (remaining params) "key" = none :=
      nonempty?_remaining (by decide) params
    rw [run_consume, apply_of_no_key supply' root' hkey, remaining_remaining]

/-- A key that is a path is refused, with a type to go with it. -/
theorem consume_too_deep :
    ∃ key path, Path.parse key = .ok path ∧ kindOf none = .ok .text ∧
      (consume ⟨0⟩ []).run [("key", some key), ("tab", some "1"), ("value", some "x")] =
        (.error .tooDeep, [("tab", some "1")]) := by
  obtain ⟨path, hpath, -, hlength⟩ := Path.exists_parse_replicate callLimit
  generalize String.ofList (Text.joined ['.'] (List.replicate (callLimit + 1) ['a'])) = key at hpath
  refine ⟨key, path, hpath, rfl, ?_⟩
  have hsome : nonempty? [("key", some key), ("tab", some "1"), ("value", some "x")] "key" =
      some key := by
    have hkey : key ≠ "" := by
      rintro rfl
      cases hpath
    simp [nonempty?, Ordered.get?, hkey]
  have hdeep : LeadsTooDeep [] key none := by
    refine ⟨fun name h ↦ (by cases h), path, hpath, ?_⟩
    rw [Forest.putCalls_of_unnamed rfl, hlength]
    exact Nat.lt_succ_self _
  rw [run_consume, apply_eq_error_iff.2 ⟨key, hsome, .inr ⟨hdeep, rfl⟩⟩]
  rfl

/-- A trigger that is refused is used up. -/
example (supply : Supply) (root : Forest) :
    ((consume supply root).run
      [("type", some "expression"), ("tab", some "1"), ("key", some "a")]).2 =
        [("tab", some "1")] := by
  rfl

end KeyTree.Trigger
