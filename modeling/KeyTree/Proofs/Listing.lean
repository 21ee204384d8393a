import KeyTree.Listing
import KeyTree.Proofs.Formula.Displayed
import KeyTree.Proofs.Text.Fields
import KeyTree.Proofs.Text.Verbatim

/-!
# What listings show

In a tree without control characters each node that is listed has one line. Behind the guides the line
has the name of the node and what is displayed for it, but not always as they are: a few backslashes
are lost or added. It has them as they are just where no text ends in too many backslashes, or has one
before a bracket that opens no tag.
-/

namespace KeyTree

open Text (IsClean isClean_nil isClean_cons)
open Text.Markup

variable {root nodes : Forest} {n : Node} {text : String}

/-! ## Labels -/

namespace Node

/-- The kind and the size of a container. -/
def measure (shape : Shape) (children : Forest) : List Char :=
  s!"({shape.kind.name}, {children.length} items)".toList

/-- A name with a value and a formula or with the size of a container, where texts in a style and texts
by themselves are shown in given ways. -/
def label (inStyle bare : List Char → List Char) (text : String) (n : Node) : List Char :=
  match n.payload with
  | .leaf (.expression formula) =>
    inStyle n.name.toList ++ ([' ', '=', ' '] ++
      (bare text.toList ++ ' ' :: inStyle formula.toList))
  | .leaf _ => inStyle n.name.toList ++ ([' ', '=', ' '] ++ bare text.toList)
  | .branch shape children => inStyle n.name.toList ++ ' ' :: measure shape children

/-- The label of a node with all texts as they are. -/
def verbatim (text : String) (n : Node) : List Char := n.label (fun s ↦ s) (fun s ↦ s) text

/-- The label of a node with what is shown of its texts. -/
def drawn (text : String) (n : Node) : List Char := n.label styledText bareText text

/-- A node whose texts are all shown as they are. -/
def IsKept (text : String) (n : Node) : Prop :=
  IsKeptStyled n.name.toList ∧ match n.payload with
    | .leaf (.expression formula) => IsKeptBare text.toList ∧ IsKeptStyled formula.toList
    | .leaf _ => IsKeptBare text.toList
    | .branch _ _ => True

/-- What is shown for a node is told apart from its texts unless all of them are kept. -/
theorem drawn_eq_verbatim_iff : n.drawn text = n.verbatim text ↔ n.IsKept text := by
  have hblank (s : List Char) : (' ' :: s).head? ≠ some '\\' :=
    fun h ↦ absurd (Option.some.inj h) (by decide)
  unfold drawn verbatim label IsKept
  dsimp only
  split
  case h_1 formula _ =>
    constructor
    · intro h
      obtain ⟨hname, h⟩ := isKeptStyled_of_append (hblank _) h
      have hbehind := (List.append_right_inj [' ', '=', ' ']).1 h
      obtain ⟨htext, h⟩ := isKeptBare_of_append (hblank _) hbehind
      exact ⟨hname, htext, styledText_eq_iff.1 (List.cons.inj h).2⟩
    · rintro ⟨hname, htext, hformula⟩
      rw [hname.styledText_eq, htext.bareText_eq, hformula.styledText_eq]
  case h_2 =>
    constructor
    · intro h
      obtain ⟨hname, h⟩ := isKeptStyled_of_append (hblank _) h
      exact ⟨hname, bareText_eq_iff.1 ((List.append_right_inj [' ', '=', ' ']).1 h)⟩
    · rintro ⟨hname, htext⟩
      rw [hname.styledText_eq, htext.bareText_eq]
  case h_3 =>
    constructor
    · intro h
      exact ⟨(isKeptStyled_of_append (hblank _) h).1, trivial⟩
    · rintro ⟨hname, -⟩
      rw [hname.styledText_eq]

/-- Beside digits, the kind and the size of a container have these characters. -/
theorem mem_measure {shape : Shape} {children : Forest} {c : Char}
    (h : c ∈ measure shape children) :
    Text.isPlainDigit c = true ∨ c ∈ "-(,) dictionary list items".toList := by
  have hpart {part : String} (hc : c ∈ part.toList) (hall : part.toList.all
      (fun c ↦ decide (c ∈ "-(,) dictionary list items".toList)) = true) :
      c ∈ "-(,) dictionary list items".toList := of_decide_eq_true (List.all_eq_true.1 hall c hc)
  change c ∈ ("(" ++ shape.kind.name ++ ", " ++ toString children.length ++ " items)").toList at h
  simp only [String.toList_append, List.mem_append, or_assoc] at h
  obtain hopen | hkind | hcomma | hcount | hclose := h
  · exact .inr (hpart hopen (by decide))
  · exact .inr (hpart hkind (by cases shape <;> decide))
  · exact .inr (hpart hcomma (by decide))
  · have hcount' : c ∈ (toString (children.length : Int)).toList := hcount
    rcases Text.eq_minus_or_of_mem_toString hcount' with rfl | hdigit
    · exact .inr (by decide)
    · exact .inl hdigit
  · exact .inr (hpart hclose (by decide))

theorem not_mem_measure {c : Char} (hc : c = '[' ∨ c = '\\') (shape : Shape) (children : Forest) :
    c ∉ measure shape children := by
  intro h
  rcases hc with rfl | rfl
  · exact absurd (mem_measure h) (by decide)
  · exact absurd (mem_measure h) (by decide)

theorem styledText_measure (shape : Shape) (children : Forest) :
    styledText (measure shape children) = measure shape children :=
  (isKeptStyled_of_not_mem (not_mem_measure (.inr rfl) shape children)).styledText_eq

end Node

/-! ## Labels in markup -/

namespace Listing

theorem isBody_style (kind : Kind) : IsBody (style kind).toList := by
  cases kind <;> decide

theorem isBody_bold (shape : Shape) : IsBody ("bold " ++ style shape.kind).toList := by
  cases shape <;> decide

/-- A character that is neither a bracket nor a backslash is shown. -/
theorem shown_cons {c : Char} (hc : c ≠ '[' ∧ c ≠ '\\') (rest : List Char) :
    shown (pieces (c :: rest)) = c :: shown (pieces rest) := by
  have hopens : opens (c :: rest) = false := by
    rw [opens, if_neg hc.2, beq_eq_false_iff_ne.2 hc.1]
    rfl
  rw [(Parsed.char hopens (parsed_pieces rest)).pieces_eq, shown_char fun h ↦ absurd h hc.2]

theorem shown_nil : shown (pieces []) = [] := by rw [Parsed.nil.pieces_eq, shown]

theorem shown_styled_append {body : String} (hbody : IsBody body.toList) (s rest : List Char) :
    shown (pieces (styled body (escape s) ++ rest)) = styledText s ++ shown (pieces rest) := by
  have hmarkup : styled body (escape s) ++ rest =
      bracketed body.toList ++ (escape s ++ (bracketed ['/'] ++ rest)) := by
    simp [styled, bracketed]
  rw [hmarkup, shown_styled hbody]

theorem shown_styled_escape {body : String} (hbody : IsBody body.toList) (s : List Char) :
    shown (pieces (styled body (escape s))) = styledText s := by
  have hstyled := shown_styled_append hbody s []
  rwa [List.append_nil, shown_nil, List.append_nil] at hstyled

theorem shown_dim (s : List Char) :
    shown (pieces (' ' :: styled "dim" (escape s))) = ' ' :: styledText s := by
  rw [shown_cons (by decide), shown_styled_escape (by decide)]

/-- A name with an equals sign, before what is displayed. -/
theorem shown_named (kind : Kind) (s rest : List Char) :
    shown (pieces (styled (style kind) (escape s) ++ ' ' :: '=' :: ' ' :: rest)) =
      styledText s ++ ' ' :: '=' :: ' ' :: shown (pieces rest) := by
  rw [shown_styled_append (isBody_style kind), shown_cons (by decide), shown_cons (by decide),
    shown_cons (by decide)]

/-- The label of a leaf shows its name, what is displayed for it and its formula. -/
theorem shown_leafLabel (id name : String) (value : Leaf) (text : String) :
    shown (pieces (leafLabel name value text)) = Node.drawn text ⟨id, name, .leaf value⟩ := by
  cases value with
  | expression formula =>
    have hlabel : leafLabel name (.expression formula) text =
        styled (style .expression) (escape name.toList) ++ ' ' :: '=' :: ' ' ::
          (escape text.toList ++ ' ' :: styled "dim" (escape formula.toList)) := by
      simp [leafLabel, escaped, Leaf.kind]
    have hnone : closes (' ' :: styled "dim" (escape formula.toList)) = false := rfl
    rw [hlabel, shown_named, shown_bare text.toList hnone fun c hc ↦ (Option.some.inj hc).symm,
      shown_dim]
    rfl
  | text value | number value | boolean value =>
    have htext := shown_bare text.toList (rfl : closes [] = false) fun c hc ↦ by cases hc
    rw [shown_nil, List.append_nil, List.append_nil] at htext
    dsimp only [leafLabel, escaped]
    rw [List.append_assoc]
    exact (shown_named _ name.toList _).trans
      (congrArg (styledText name.toList ++ ' ' :: '=' :: ' ' :: ·) htext)

/-- The label of a container shows its name, its kind and its size. -/
theorem shown_branchLabel (id name : String) (shape : Shape) (children : Forest) (text : String) :
    shown (pieces (branchLabel name shape children.length)) =
      Node.drawn text ⟨id, name, .branch shape children⟩ := by
  have hmeasure := shown_dim (Node.measure shape children)
  have hescape := escape_eq_self (Node.not_mem_measure (.inl rfl) shape children)
    (Node.not_mem_measure (.inr rfl) shape children)
  rw [hescape, Node.styledText_measure] at hmeasure
  refine (shown_styled_append (isBody_bold shape) name.toList _).trans ?_
  exact congrArg (styledText name.toList ++ ·) hmeasure

/-! ## Lines -/

theorem isClean_styledText {s : List Char} (h : IsClean s) : IsClean (styledText s) := by
  intro c hc
  rcases mem_styledText hc with hs | hmark
  · exact h c hs
  · have hmarks : IsClean ['\\', '[', '/', ']'] := by decide
    exact hmarks c hmark

theorem isClean_bareText {s : List Char} (h : IsClean s) : IsClean (bareText s) := by
  intro c hc
  rcases mem_bareText hc with hs | rfl
  · exact h c hs
  · decide

theorem isClean_measure (shape : Shape) (children : Forest) :
    IsClean (Node.measure shape children) := by
  intro c hc
  rcases Node.mem_measure hc with hdigit | hmark
  · exact Text.isControl_of_isPlainDigit hdigit
  · have hmarks : IsClean "-(,) dictionary list items".toList := by decide
    exact hmarks c hmark

theorem isClean_drawn (hn : n.IsClean) (htext : IsClean text.toList) : IsClean (n.drawn text) := by
  have hname := isClean_styledText hn.name
  have hequals : IsClean [' ', '=', ' '] := by decide
  have hspace {s : List Char} (hs : IsClean s) : IsClean (' ' :: s) :=
    isClean_cons.2 ⟨by decide, hs⟩
  have hbare := isClean_bareText htext
  unfold Node.drawn Node.label
  split
  case h_1 formula hpayload =>
    have hformula := isClean_styledText (hn.leaf hpayload)
    exact hname.append (hequals.append (hbare.append (hspace hformula)))
  case h_2 => exact hname.append (hequals.append hbare)
  case h_3 shape children _ => exact hname.append (hspace (isClean_measure shape children))

theorem isDropped_of_isControl {c : Char} (h : Text.isControl c = false) : isDropped c = false := by
  by_contra hdropped
  simp only [isDropped, Bool.not_eq_false, Bool.or_eq_true, beq_iff_eq] at hdropped
  rcases hdropped with (((rfl | rfl) | rfl) | rfl) | rfl <;> exact absurd h (by decide)

/-- Nothing is dropped from a label without control characters, and it has one line. -/
theorem labelLines_of_isClean {label line : List Char} (hlabel : shown (pieces label) = line)
    (h : IsClean line) (first further : List Char) :
    labelLines first further label = [first ++ line] := by
  have hrender : render label = line := by
    rw [render, hlabel, List.filter_eq_self]
    intro c hc
    rw [isDropped_of_isControl (h c hc)]
    rfl
  have hfeed : '\n' ∉ line := fun hmem ↦ absurd (h _ hmem) (by decide)
  rw [labelLines, hrender, Text.fields_of_not_mem hfeed]
  rfl

theorem labelLines_titleLabel {title : String} (h : IsClean title.toList) :
    labelLines [] [] (titleLabel title) = [styledText title.toList] :=
  labelLines_of_isClean (shown_styled_escape (by decide) title.toList) (isClean_styledText h) [] []

/-- A node that is listed, and what leads to its label. -/
structure Row where
  lead : List Char
  node : Node

mutual

/-- The rows of a node and of all nodes below it. -/
def rowsOf (lead : List Char) (isLast : Bool) : Node → List Row
  | ⟨id, name, .leaf value⟩ => [⟨lead ++ (guide isLast).first, ⟨id, name, .leaf value⟩⟩]
  | ⟨id, name, .branch shape children⟩ =>
    ⟨lead ++ (guide isLast).first, ⟨id, name, .branch shape children⟩⟩ ::
      rowsBelow (lead ++ (guide isLast).further) children

def rowsBelow (lead : List Char) : List Node → List Row
  | [] => []
  | n :: ns => rowsOf lead ns.isEmpty n ++ rowsBelow lead ns

end

mutual

theorem ids_rowsOf (lead : List Char) (isLast : Bool) (n : Node) :
    (rowsOf lead isLast n).map (·.node.id) = n.ids := by
  match n with
  | ⟨_, _, .leaf _⟩ => rw [rowsOf, Node.ids, List.map_singleton]
  | ⟨_, _, .branch _ children⟩ =>
    rw [rowsOf, Node.ids, List.map_cons, ids_rowsBelow _ children]

/-- Every node of a tree is listed, from the top down and in order. -/
theorem ids_rowsBelow (lead : List Char) (nodes : List Node) :
    (rowsBelow lead nodes).map (·.node.id) = Forest.ids nodes := by
  match nodes with
  | [] => rw [rowsBelow, Forest.ids, List.map_nil]
  | n :: nodes =>
    rw [rowsBelow, Forest.ids, List.map_append, ids_rowsOf _ _ n, ids_rowsBelow lead nodes]

end

/-- What leads to the label of a row, and what is shown for its node. -/
def Row.HasLine (root : Forest) (row : Row) (line : List Char) : Prop :=
  ∃ text, row.node.displayed root = .ok text ∧ line = row.lead ++ row.node.drawn text

/-- The rows have their lines, or nothing can be displayed for one of them. -/
inductive HasLines (root : Forest) (rows : List Row) :
    Except EvaluationFault (List (List Char)) → Prop
  | ok {lines : List (List Char)} (h : List.Forall₂ (Row.HasLine root) rows lines) :
      HasLines root rows (.ok lines)
  | error {row : Row} {fault : EvaluationFault} (hrow : row ∈ rows)
      (h : row.node.displayed root = .error fault) : HasLines root rows (.error fault)

theorem HasLines.lines {rows : List Row} {drawn : List (List Char)}
    (h : HasLines root rows (.ok drawn)) : List.Forall₂ (Row.HasLine root) rows drawn := by
  cases h with
  | ok hlines => exact hlines

theorem HasLines.exists_row {rows : List Row} {fault : EvaluationFault}
    (h : HasLines root rows (.error fault)) :
    ∃ row ∈ rows, row.node.displayed root = .error fault := by
  cases h with
  | error hrow hfault => exact ⟨_, hrow, hfault⟩

theorem isEmpty_of_ofForest {cache : Arithmetic.Cache} {below : List Outline}
    (h : (ofForest cache root nodes).1 = .ok below) : below.isEmpty = nodes.isEmpty := by
  cases nodes with
  | nil =>
    obtain rfl := Except.ok.inj h
    rfl
  | cons n nodes =>
    rw [ofForest] at h
    rcases hfirst : ofNode cache root n with ⟨fault | first, rest⟩
    · rw [hfirst] at h
      cases h
    · rw [hfirst] at h
      obtain ⟨others, -, rfl⟩ := exists_of_map_eq_ok h
      rfl

mutual

theorem hasLines_ofNode {cache : Arithmetic.Cache} (hcache : cache.IsReady)
    (hroot : Forest.IsClean root) (n : Node) (hn : n.IsClean) (lead : List Char) (isLast : Bool) :
    HasLines root (rowsOf lead isLast n) ((ofNode cache root n).1.map (lines lead isLast)) ∧
      (ofNode cache root n).2.IsReady := by
  match n with
  | ⟨id, name, .leaf value⟩ =>
    have hdisplay := Node.display_eq hcache root ⟨id, name, .leaf value⟩
    have hready := (Node.display_spec hcache root ⟨id, name, .leaf value⟩).1
    rw [ofNode, rowsOf]
    dsimp only
    rw [hdisplay]
    refine ⟨?_, hready⟩
    cases hshown : Node.displayed root ⟨id, name, .leaf value⟩ with
    | error fault => exact .error List.mem_cons_self hshown
    | ok text =>
      have hclean := isClean_drawn hn (hn.displayed hroot hshown)
      refine .ok ?_
      rw [lines, linesBelow, labelLines_of_isClean (shown_leafLabel id name value text) hclean]
      exact .cons ⟨text, hshown, rfl⟩ .nil
  | ⟨id, name, .branch shape children⟩ =>
    obtain ⟨hbelow, hready⟩ := hasLines_ofForest hcache hroot children hn.2
      (lead ++ (guide isLast).further)
    rw [ofNode, rowsOf]
    refine ⟨?_, hready⟩
    dsimp only
    generalize (ofForest cache root children).1 = below at hbelow
    cases below with
    | error fault =>
      obtain ⟨row, hrow, hfault⟩ := hbelow.exists_row
      exact .error (List.mem_cons_of_mem _ hrow) hfault
    | ok below =>
      have hclean := isClean_drawn hn (hn.displayed hroot rfl)
      refine .ok ?_
      rw [lines, labelLines_of_isClean (shown_branchLabel id name shape children _) hclean]
      exact .cons ⟨_, rfl, rfl⟩ hbelow.lines

theorem hasLines_ofForest {cache : Arithmetic.Cache} (hcache : cache.IsReady)
    (hroot : Forest.IsClean root) (nodes : List Node) (hnodes : Forest.IsClean nodes)
    (lead : List Char) :
    HasLines root (rowsBelow lead nodes) ((ofForest cache root nodes).1.map (linesBelow lead)) ∧
      (ofForest cache root nodes).2.IsReady := by
  match nodes with
  | [] => exact ⟨.ok .nil, hcache⟩
  | n :: nodes =>
    obtain ⟨hfirst, hready⟩ := hasLines_ofNode hcache hroot n hnodes.1 lead nodes.isEmpty
    rw [ofForest, rowsBelow]
    rcases hnode : ofNode cache root n with ⟨fault | first, rest⟩
    · rw [hnode] at hfirst hready
      obtain ⟨row, hrow, hfault⟩ := hfirst.exists_row
      exact ⟨.error (List.mem_append_left _ hrow) hfault, hready⟩
    · rw [hnode] at hfirst hready
      obtain ⟨hbelow, hready⟩ := hasLines_ofForest hready hroot nodes hnodes.2 lead
      refine ⟨?_, hready⟩
      dsimp only
      cases hothers : (ofForest rest root nodes).1 with
      | error fault =>
        rw [hothers] at hbelow
        obtain ⟨row, hrow, hfault⟩ := hbelow.exists_row
        exact .error (List.mem_append_right _ hrow) hfault
      | ok below =>
        rw [hothers] at hbelow
        refine .ok ?_
        rw [linesBelow, isEmpty_of_ofForest hothers]
        exact List.rel_append hfirst.lines hbelow.lines

end

/-- A listing has its title, and then a line for each node, unless one of them has none. -/
theorem text_spec {cache : Arithmetic.Cache} (hcache : cache.IsReady)
    (hroot : Forest.IsClean root) (hnodes : Forest.IsClean nodes) (title : String) :
    (∃ lines, (Listing.text cache root title nodes).1 = .ok (String.ofList
        ((labelLines [] [] (titleLabel title) ++ lines).flatMap fun line ↦ line ++ ['\n'])) ∧
      List.Forall₂ (Row.HasLine root) (rowsBelow [] nodes) lines) ∨
    ∃ row ∈ rowsBelow [] nodes, ∃ fault, row.node.displayed root = .error fault ∧
      (Listing.text cache root title nodes).1 = .error fault := by
  have hlines := (hasLines_ofForest hcache hroot nodes hnodes []).1
  unfold Listing.text
  dsimp only
  generalize (ofForest cache root nodes).1 = below at hlines
  cases below with
  | error fault =>
    obtain ⟨row, hrow, hfault⟩ := hlines.exists_row
    exact .inr ⟨row, hrow, fault, hfault, rfl⟩
  | ok below => exact .inl ⟨linesBelow [] below, rfl, hlines.lines⟩

end Listing

end KeyTree
