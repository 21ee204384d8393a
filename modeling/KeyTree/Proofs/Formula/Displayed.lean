import KeyTree.Proofs.Formula.References
import KeyTree.Proofs.Json.Numbers
import KeyTree.Proofs.Number.Whole
import KeyTree.Proofs.Tree.Ways

/-!
# Control characters in displayed texts

Numbers and documents on one line have no control characters. So if the names, texts and formulas of a
tree have none, what is displayed for a node of it has none either, whatever its formula refers to.
-/

namespace KeyTree

/-! ## Texts -/

namespace Text

/-- The characters of the two blocks of controls, and the delete character. -/
def isControl (c : Char) : Bool :=
  decide (c.toNat < 0x20) || decide (0x7F ≤ c.toNat ∧ c.toNat ≤ 0x9F)

/-- A text without control characters. -/
def IsClean (s : List Char) : Prop := ∀ c ∈ s, isControl c = false

instance (s : List Char) : Decidable (IsClean s) :=
  List.decidableBAll (fun c ↦ isControl c = false) s

variable {s t : List Char}

theorem isClean_nil : IsClean [] := List.forall_mem_nil _

theorem isClean_cons {c : Char} : IsClean (c :: s) ↔ isControl c = false ∧ IsClean s :=
  List.forall_mem_cons

theorem isClean_append : IsClean (s ++ t) ↔ IsClean s ∧ IsClean t := List.forall_mem_append

theorem IsClean.append (hs : IsClean s) (ht : IsClean t) : IsClean (s ++ t) :=
  isClean_append.2 ⟨hs, ht⟩

theorem isClean_flatten {texts : List (List Char)} (h : ∀ t ∈ texts, IsClean t) :
    IsClean texts.flatten := by
  intro c hc
  obtain ⟨t, ht, hc⟩ := List.mem_flatten.1 hc
  exact h t ht c hc

theorem isControl_of_isPlainDigit {c : Char} (h : isPlainDigit c = true) : isControl c = false := by
  have hbounds := toNat_of_isPlainDigit h
  rw [isControl, Bool.or_eq_false_iff, decide_eq_false_iff_not, decide_eq_false_iff_not]
  omega

theorem isClean_of_isPlainDigit (h : ∀ c ∈ s, isPlainDigit c = true) : IsClean s :=
  fun c hc ↦ isControl_of_isPlainDigit (h c hc)

theorem isClean_hex (width n : Nat) : IsClean (hex width n) := by
  have hdigit : ∀ i < 16, isControl (Nat.digitChar i) = false := by decide
  induction width generalizing n with
  | zero => exact isClean_nil
  | succ width ih =>
    have hlast := hdigit (n % 16) (Nat.mod_lt n (by decide))
    exact (ih (n / 16)).append (isClean_cons.2 ⟨hlast, isClean_nil⟩)

theorem isClean_toString (i : Int) : IsClean (toString i).toList := by
  intro c hc
  rcases eq_minus_or_of_mem_toString hc with rfl | hdigit
  · decide
  · exact isControl_of_isPlainDigit hdigit

end Text

open Text (IsClean isClean_nil isClean_cons isClean_append)

/-! ## Numbers -/

theorem Json.IsExponent.isClean {exponent : List Char} (h : IsExponent exponent) :
    IsClean exponent := by
  cases h with
  | none => exact isClean_nil
  | @digits sign ds hsign hsome hdigits =>
    have hcontrol : Text.isControl sign = false := by
      rcases hsign with rfl | rfl
      · decide
      · decide
    have hclean := Text.isClean_of_isPlainDigit hdigits
    exact isClean_cons.2 ⟨by decide, isClean_cons.2 ⟨hcontrol, hclean⟩⟩

theorem Json.IsFraction.isClean {fraction : List Char} (h : IsFraction fraction) :
    IsClean fraction := by
  cases h with
  | none => exact isClean_nil
  | digits hsome hdigits => exact isClean_cons.2 ⟨by decide, Text.isClean_of_isPlainDigit hdigits⟩

theorem Json.NumberParts.IsWritten.isClean {n : NumberParts} (h : n.IsWritten) :
    IsClean n.text := by
  have hsign : IsClean n.sign := by
    rcases h.sign with hsign | hsign
    · rw [hsign]
      exact isClean_nil
    · rw [hsign]
      decide
  have hwhole : IsClean n.whole := Text.isClean_of_isPlainDigit h.whole.isPlainDigit
  exact ((hsign.append hwhole).append h.fraction.isClean).append h.exponent.isClean

theorem Layout.isClean_text (x : Float) : IsClean (document.text x).toList := by
  unfold text
  split
  · decide
  · dsimp only
    split
    case isTrue hfinite =>
      obtain ⟨n, hwritten, htext, -⟩ := Json.exists_parts_of_finite hfinite document
      rw [String.toList_ofList, ← htext]
      exact hwritten.isClean
    case isFalse =>
      split
      · decide
      · decide

theorem Number.isClean_shown (x : Float) : IsClean (shown x).toList := by
  unfold shown
  split
  · split
    · exact Text.isClean_toString _
    · exact Layout.isClean_text x
  · exact Layout.isClean_text x

/-! ## Documents on one line -/

namespace Json

theorem isClean_writeChar (c : Char) : IsClean (writeChar true c) := by
  have hunit (unit : Nat) : IsClean (unitEscape unit) :=
    isClean_cons.2 ⟨by decide, isClean_cons.2 ⟨by decide, Text.isClean_hex 4 unit⟩⟩
  unfold writeChar
  dsimp only
  split_ifs with hquote hslash hfeed hreturn htab hform hback hlow hplain hnarrow
  case pos | pos | pos | pos | pos | pos | pos => decide
  case pos => exact hunit _
  case pos =>
    refine isClean_cons.2 ⟨?_, isClean_nil⟩
    have hascii := hplain.resolve_right (by decide)
    rw [Text.isControl, Bool.or_eq_false_iff, decide_eq_false_iff_not, decide_eq_false_iff_not]
    omega
  case pos => exact hunit _
  case neg => exact (hunit _).append (hunit _)

theorem isClean_writeString (s : String) : IsClean (writeString true s) := by
  have hchars : IsClean (s.toList.flatMap (writeChar true)) := by
    rw [List.flatMap_def]
    apply Text.isClean_flatten
    intro t ht
    obtain ⟨c, -, rfl⟩ := List.mem_map.1 ht
    exact isClean_writeChar c
  exact (isClean_cons.2 ⟨by decide, hchars⟩).append (by decide)

mutual

theorem isClean_write (level : Nat) (j : Json) : IsClean (j.write .compact level) := by
  match j with
  | .null => rw [write]; decide
  | .boolean true => rw [write]; decide
  | .boolean false => rw [write]; decide
  | .integer value => rw [write]; exact Text.isClean_toString value
  | .number value => rw [write]; exact Layout.isClean_text value
  | .string value => rw [write]; exact isClean_writeString value
  | .array [] => rw [write]; decide
  | .array (first :: rest) =>
    have hitems := (isClean_write (level + 1) first).append (isClean_writeItems (level + 1) rest)
    rw [write]
    exact isClean_cons.2 ⟨by decide, (hitems.append isClean_nil).append (by decide)⟩
  | .object [] => rw [write]; decide
  | .object ((key, value) :: rest) =>
    have hkey : IsClean (writeString true key ++ [':']) :=
      (isClean_writeString key).append (by decide)
    have hmembers := (hkey.append (isClean_write (level + 1) value)).append
      (isClean_writeMembers (level + 1) rest)
    rw [write]
    exact isClean_cons.2 ⟨by decide, (hmembers.append isClean_nil).append (by decide)⟩

theorem isClean_writeItems (level : Nat) (items : List Json) :
    IsClean (writeItems .compact level items) := by
  match items with
  | [] => rw [writeItems]; exact isClean_nil
  | item :: rest =>
    have hitems := (isClean_write level item).append (isClean_writeItems level rest)
    rw [writeItems]
    exact isClean_cons.2 ⟨by decide, hitems⟩

theorem isClean_writeMembers (level : Nat) (members : List (String × Json)) :
    IsClean (writeMembers .compact level members) := by
  match members with
  | [] => rw [writeMembers]; exact isClean_nil
  | (key, value) :: rest =>
    have hkey : IsClean (writeString true key ++ [':']) :=
      (isClean_writeString key).append (by decide)
    have hmembers := (hkey.append (isClean_write level value)).append
      (isClean_writeMembers level rest)
    rw [writeMembers]
    exact isClean_cons.2 ⟨by decide, hmembers⟩

end

end Json

/-! ## Trees -/

/-- A leaf whose text or formula has no control characters. -/
def Leaf.IsClean : Leaf → Prop
  | text value => Text.IsClean value.toList
  | expression formula => Text.IsClean formula.toList
  | number _ | boolean _ => True

mutual

/-- A node whose name, and all that it holds, has no control characters. -/
def Node.IsClean : Node → Prop
  | ⟨_, name, .leaf value⟩ => Text.IsClean name.toList ∧ value.IsClean
  | ⟨_, name, .branch _ children⟩ => Text.IsClean name.toList ∧ Forest.IsClean children

def Forest.IsClean : List Node → Prop
  | [] => True
  | n :: ns => n.IsClean ∧ Forest.IsClean ns

end

variable {root nodes : Forest} {n : Node}

theorem Leaf.IsClean.rendered {value : Leaf} (h : value.IsClean) :
    Text.IsClean value.rendered.toList := by
  cases value with
  | text value => exact h
  | number value => exact Number.isClean_shown value
  | boolean value => cases value <;> decide
  | expression formula => exact h

theorem Forest.isClean_iff : Forest.IsClean nodes ↔ ∀ n ∈ nodes, n.IsClean := by
  induction nodes with
  | nil => exact iff_of_true trivial (List.forall_mem_nil _)
  | cons n nodes ih => rw [Forest.IsClean, ih, List.forall_mem_cons]

namespace Node.IsClean

theorem name (h : n.IsClean) : Text.IsClean n.name.toList := by
  match n with
  | ⟨_, _, .leaf _⟩ => exact h.1
  | ⟨_, _, .branch _ _⟩ => exact h.1

theorem leaf {value : Leaf} (h : n.IsClean) (hvalue : n.payload = .leaf value) : value.IsClean := by
  obtain ⟨id, name, payload⟩ := n
  obtain rfl : payload = .leaf value := hvalue
  exact h.2

theorem children {inner : Forest} (h : n.IsClean) (hinner : n.children? = some inner) :
    Forest.IsClean inner := by
  match n with
  | ⟨_, _, .leaf _⟩ => cases hinner
  | ⟨_, _, .branch _ _⟩ =>
    obtain rfl := Option.some.inj hinner
    exact h.2

/-- A container gives formulas its document, and a document has no control characters at all. -/
theorem rendered (h : n.IsClean) : Text.IsClean n.rendered.toList := by
  unfold Node.rendered
  split
  case h_1 value hvalue => exact (h.leaf hvalue).rendered
  case h_2 =>
    rw [Json.text, String.toList_ofList]
    exact Json.isClean_write 0 _

end Node.IsClean

namespace Forest.IsClean

theorem follow? {head : String} {tail : List String} (h : Forest.IsClean nodes)
    (hfound : nodes.follow? head tail = .ok (some n)) : n.IsClean := by
  induction tail generalizing nodes head with
  | nil => exact isClean_iff.1 h n (mem_of_child? hfound)
  | cons next tail ih =>
    rw [Forest.follow?] at hfound
    obtain ⟨found, hchild, hfound⟩ := exists_of_bind_eq_ok hfound
    split at hfound
    case h_1 => cases Except.ok.inj hfound
    case h_2 inner hinner =>
      obtain ⟨m, rfl, hm⟩ := Option.bind_eq_some_iff.1 hinner
      have hclean := isClean_iff.1 h m (mem_of_child? hchild)
      exact ih (hclean.children hm) hfound

theorem lookup? {path : String} (h : Forest.IsClean root)
    (hfound : root.lookup? path = .ok (some n)) : n.IsClean := by
  unfold Forest.lookup? at hfound
  split at hfound
  case h_1 => cases Except.ok.inj hfound
  case h_2 => exact h.follow? hfound

end Forest.IsClean

/-! ## Formulas -/

namespace Formula

variable {formula : String}

/-- The characters of a formula outside its references. -/
theorem mem_of_char_mem_pieces {c : Char} {s : List Char} (h : .char c ∈ pieces s) : c ∈ s := by
  induction s using pieces.induct with
  | case1 =>
    rw [pieces] at h
    cases h
  | case2 d rest path after hscan hlength ih =>
    obtain ⟨hnonempty, hchars, hs⟩ := scanReference?_eq_some hscan
    rw [hs, pieces_reference_append hnonempty hchars] at h
    rcases List.mem_cons.1 h with heq | hmem
    · cases heq
    · rw [hs]
      exact List.mem_append_right _ (List.mem_cons_of_mem _ (List.mem_cons_of_mem _ (ih hmem)))
  | case3 d rest hscan ih =>
    rw [pieces_of_scanReference?_none hscan] at h
    rcases List.mem_cons.1 h with heq | hmem
    · obtain rfl := Piece.char.inj heq
      exact List.mem_cons_self
    · exact List.mem_cons_of_mem _ (ih hmem)

theorem isClean_of_fill {filled : List Char} (hroot : Forest.IsClean root)
    (hformula : Text.IsClean formula.toList)
    (h : fill root (pieces formula.toList) = .ok filled) : Text.IsClean filled := by
  obtain ⟨texts, htexts, rfl⟩ := exists_of_map_eq_ok h
  apply Text.isClean_flatten
  intro text htext
  obtain ⟨piece, hpiece, hfill⟩ := exists_of_mem_mapM htexts htext
  cases piece with
  | char c =>
    obtain rfl := Except.ok.inj hfill
    have hc := mem_of_char_mem_pieces hpiece
    exact isClean_cons.2 ⟨hformula c hc, isClean_nil⟩
  | reference path =>
    rw [Piece.fill] at hfill
    split at hfill
    case h_3 n hfound =>
      split at hfill
      case isTrue =>
        obtain rfl := Except.ok.inj hfill
        exact (hroot.lookup? hfound).rendered
      case isFalse => cases hfill
    all_goals cases hfill

theorem isClean_failureText : Text.IsClean Evaluation.failureText.toList := by decide

theorem isClean_settled {filled : List Char} (h : Text.IsClean filled) :
    Text.IsClean (settled filled).shown.toList := by
  unfold settled
  split
  · split
    · exact Number.isClean_shown _
    · exact isClean_failureText
  · rw [Evaluation.shown, String.toList_ofList]
    exact h

/-- A formula without control characters comes to a text without any. -/
theorem isClean_outcome {result : Evaluation} (hroot : Forest.IsClean root)
    (hformula : Text.IsClean formula.toList) (h : outcome root formula = .ok result) :
    Text.IsClean result.shown.toList := by
  unfold outcome at h
  dsimp only at h
  split at h
  case isTrue =>
    split at h
    case h_1 filled hfill =>
      obtain rfl := Except.ok.inj h
      exact isClean_settled (isClean_of_fill hroot hformula hfill)
    case h_2 =>
      obtain rfl := Except.ok.inj h
      exact isClean_failureText
    case h_3 | h_4 => cases h
  case isFalse =>
    obtain rfl := Except.ok.inj h
    exact hformula

end Formula

/-! ## What is displayed -/

/-- The text shown for a node, whatever has been computed before. -/
def Node.displayed (root : Forest) (n : Node) : Except EvaluationFault String :=
  match n.payload with
  | .leaf (.expression formula) => (Formula.outcome root formula).map Evaluation.shown
  | .leaf value => .ok value.rendered
  | .branch _ children => .ok s!"{children.length} items"

theorem Node.display_eq {cache : Arithmetic.Cache} (hcache : cache.IsReady) (root : Forest)
    (n : Node) : (n.display cache root).1 = n.displayed root := by
  match n with
  | ⟨_, _, .leaf (.expression formula)⟩ =>
    exact congrArg (Except.map Evaluation.shown) (Formula.evaluate_spec hcache root formula).1
  | ⟨_, _, .leaf (.text _)⟩ | ⟨_, _, .leaf (.number _)⟩ | ⟨_, _, .leaf (.boolean _)⟩ => rfl
  | ⟨_, _, .branch _ _⟩ => rfl

/-- What is displayed for a node of a tree without control characters has none. -/
theorem Node.IsClean.displayed {shown : String} (hroot : Forest.IsClean root) (hn : n.IsClean)
    (h : n.displayed root = .ok shown) : Text.IsClean shown.toList := by
  unfold Node.displayed at h
  split at h
  case h_1 formula hpayload =>
    obtain ⟨result, hresult, rfl⟩ := exists_of_map_eq_ok h
    exact Formula.isClean_outcome hroot (hn.leaf hpayload) hresult
  case h_2 value _ hpayload =>
    obtain rfl := Except.ok.inj h
    exact (hn.leaf hpayload).rendered
  case h_3 shape children hpayload =>
    obtain rfl := Except.ok.inj h
    have hcount : Text.IsClean (toString children.length).toList :=
      Text.isClean_toString children.length
    rw [String.toList_append]
    exact hcount.append (by decide)

end KeyTree
