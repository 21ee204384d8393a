import KeyTree.Command.Action
import KeyTree.Proofs.Arithmetic.Cache
import KeyTree.Proofs.Listing

/-!
# What the command that lists a tree prints

Under its title a listing has a line for each node of the tree or of the container that it lists. The
line has the name of the node and what is displayed for it as they are, with all brackets and
backslashes, unless a text in it ends in backslashes that belong to its style, or to nothing, or has one
before a bracket that opens no tag.
-/

namespace KeyTree

open Listing (Row labelLines rowsBelow titleLabel)

variable {library : UrlLibrary} {s : Session} {path title : String} {nodes : Forest}

namespace Session

theorem display_eq (hcache : s.cache.IsReady) (n : Node) :
    (s.display n).1 = (n.displayed s.root).mapError .evaluation := by
  rw [← Node.display_eq hcache s.root n]
  rfl

/-- The line of a row, which has the texts of the node as they are just where all of them are kept. -/
structure Prints (s : Session) (row : Row) (text : String) (line : List Char) : Prop where
  displayed : (s.display row.node).1 = .ok text
  line_eq : line = row.lead ++ row.node.drawn text
  verbatim_iff : line = row.lead ++ row.node.verbatim text ↔ row.node.IsKept text

theorem exists_prints (hcache : s.cache.IsReady) {row : Row} {line : List Char}
    (h : row.HasLine s.root line) : ∃ text, s.Prints row text line := by
  obtain ⟨text, hdisplayed, rfl⟩ := h
  refine ⟨text, ?_, rfl, ?_⟩
  · rw [display_eq hcache, hdisplayed]
    rfl
  · rw [List.append_right_inj]
    exact Node.drawn_eq_verbatim_iff

end Session

namespace Command

/-- What a path lists under which title: the whole tree, or what a container of it holds. -/
inductive Lists (root : Forest) : String → String → Forest → Prop
  | root : Lists root "" Action.rootTitle root
  | container {path : String} {n : Node} {children : Forest} (hpath : path ≠ "")
      (hfound : root.lookup? path = .ok (some n)) (hchildren : n.children? = some children) :
      Lists root path path children

theorem Lists.isClean {tree : Forest} (h : Lists tree path title nodes)
    (htree : Forest.IsClean tree) : Forest.IsClean nodes := by
  cases h with
  | root => exact htree
  | container _ hfound hchildren => exact (htree.lookup? hfound).children hchildren

namespace Action

theorem perform_list (h : Lists s.root path title nodes) :
    perform library s (.list path) = listed s title nodes := by
  cases h with
  | root => rfl
  | @container _ n _ hpath hfound hchildren =>
    have hget : s.get? path = .ok (some n) := by
      rw [Session.get?, hfound]
      rfl
    have hempty : path.isEmpty = false := by simpa [String.isEmpty_iff] using hpath
    rw [perform, performList, hempty, if_neg Bool.false_ne_true, hget]
    dsimp only
    rw [hchildren]

theorem listed_eq (s : Session) (title : String) (nodes : Forest) : (listed s title nodes).1 =
    match (Listing.text s.cache s.root title nodes).1 with
    | .ok text => .done text
    | .error fault => .failed (.evaluation fault) := by
  unfold listed Session.listing
  dsimp only
  cases (Listing.text s.cache s.root title nodes).1 with
  | ok text => rfl
  | error fault => rfl

/--
Let no name, text or formula of a tree have control characters. Then the command that lists the tree or
a container of it prints a line for each node below, in order: behind the guides, its name and what is
displayed for it, and its formula if it is one, or the kind and the size of a container. The texts are
as they are if and only if a name and a formula end in one backslash at most, what is displayed does not
end in just one, and all brackets behind backslashes open tags. If nothing can be displayed for one of
the nodes, the command fails for that reason.
-/
theorem perform_list_lines (hcache : s.cache.IsReady) (hroot : Forest.IsClean s.root)
    (hlists : Lists s.root path title nodes) :
    (∃ lines, (perform library s (.list path)).1 = .done (String.ofList
        ((labelLines [] [] (titleLabel title) ++ lines).flatMap fun line ↦ line ++ ['\n'])) ∧
      List.Forall₂ (fun row line ↦ ∃ text, s.Prints row text line) (rowsBelow [] nodes) lines) ∨
    ∃ row ∈ rowsBelow [] nodes, ∃ fault, (s.display row.node).1 = .error fault ∧
      (perform library s (.list path)).1 = .failed fault := by
  rw [perform_list hlists, listed_eq]
  rcases Listing.text_spec hcache hroot (hlists.isClean hroot) title with
    ⟨lines, htext, hlines⟩ | ⟨row, hrow, fault, hfault, htext⟩
  · rw [htext]
    exact .inl ⟨lines, rfl, hlines.imp fun _ _ hline ↦ Session.exists_prints hcache hline⟩
  · rw [htext]
    refine .inr ⟨row, hrow, .evaluation fault, ?_, rfl⟩
    rw [Session.display_eq hcache, hfault]
    rfl

/-- A session on a tree that is not saved. -/
def onForest (tree : Forest) : Session := .start (.standard "/home/user") tree .missing false ⟨0⟩

theorem isReady_onForest (tree : Forest) : (onForest tree).cache.IsReady :=
  Arithmetic.Cache.isReady_ofCapacity (by decide)

/-- Brackets and backslashes in a name, in a text and in a formula. -/
def bracketed : Forest :=
  [⟨"1", "[b]", .branch .dictionary
    [⟨"2", "[/a]", .leaf (.text "\\[red]\\\\")⟩, ⟨"3", "c", .leaf (.expression "\\1 + [2]\\")⟩]⟩]

theorem isClean_bracketed : Forest.IsClean bracketed := by
  have htext : Text.IsClean "\\[red]\\\\".toList := by decide
  have hformula : Text.IsClean "\\1 + [2]\\".toList := by decide
  exact ⟨⟨by decide, ⟨by decide, htext⟩, ⟨by decide, hformula⟩, trivial⟩, trivial⟩

theorem perform_list_lines_bracketed : (onForest bracketed).cache.IsReady ∧
    Forest.IsClean bracketed ∧ Lists bracketed "" rootTitle bracketed ∧
    ((∃ lines, (perform Url.library (onForest bracketed) (.list "")).1 = .done (String.ofList
        ((labelLines [] [] (titleLabel rootTitle) ++ lines).flatMap fun line ↦ line ++ ['\n'])) ∧
      List.Forall₂ (fun row line ↦ ∃ text, (onForest bracketed).Prints row text line)
        (rowsBelow [] bracketed) lines) ∨
    ∃ row ∈ rowsBelow [] bracketed, ∃ fault, ((onForest bracketed).display row.node).1 = .error fault ∧
      (perform Url.library (onForest bracketed) (.list "")).1 = .failed fault) :=
  ⟨isReady_onForest bracketed, isClean_bracketed, .root,
    perform_list_lines (isReady_onForest bracketed) isClean_bracketed .root⟩

/-- A text that ends in one backslash. -/
def trailing : Node := ⟨"1", "b", .leaf (.text "a\\")⟩

/-- Another backslash is printed behind a text that ends in one. -/
theorem exists_slash_added : (onForest [trailing]).cache.IsReady ∧ Forest.IsClean [trailing] ∧
    ((onForest [trailing]).display trailing).1 = .ok "a\\" ∧
    trailing.verbatim "a\\" = "b = a\\".toList ∧
    (perform Url.library (onForest [trailing]) (.list "")).1 = .done "Jar\n└── b = a\\\\\n" := by
  have htext : Text.IsClean "a\\".toList := by decide
  have hclean : Node.IsClean trailing := ⟨by decide, htext⟩
  have htitle := @Listing.labelLines_titleLabel rootTitle (by decide)
  have hlabel := Listing.shown_leafLabel "1" "b" (.text "a\\") "a\\"
  have hdrawn := Listing.isClean_drawn hclean htext
  refine ⟨isReady_onForest _, ⟨hclean, trivial⟩, rfl, rfl, ?_⟩
  change Reply.done (String.ofList (((labelLines [] [] (titleLabel rootTitle)) ++
    ((labelLines _ _ (Listing.leafLabel "b" (.text "a\\") "a\\") ++ []) ++ [])).flatMap _)) = _
  rw [htitle, Listing.labelLines_of_isClean hlabel hdrawn]
  rfl

end Action

end Command

end KeyTree
