import KeyTree.Tree.Lookup
import KeyTree.Tree.Supply
import KeyTree.Value.Writing

/-!
# Edits within a scope

A scope names a container by the identities on the way to it. A scope that leads to no container
reads as empty, and edits within it change nothing. Reading takes no calls one inside the other, but
an edit takes one for each container on its way.
-/

namespace KeyTree.Forest

/-- The first sibling of an identity. -/
def withId? (nodes : Forest) (id : String) : Option Node :=
  nodes.find? fun n ↦ n.id == id

/-- The container that a scope leads to. The root is none. -/
def container? (nodes : Forest) : Scope → Option Node
  | [] => none
  | id :: rest => match nodes.withId? id with
    | none => none
    | some n => match n.children?, rest with
      | none, _ => none
      | some _, [] => some n
      | some children, next :: rest => container? children (next :: rest)

/-- The siblings within a scope. -/
def within (root : Forest) (scope : Scope) : Forest :=
  match scope with
  | [] => root
  | scope => ((root.container? scope).bind Node.children?).getD []

/-- Changes the siblings within a scope. -/
def update (f : Forest → Forest) : Scope → Forest → Forest
  | [], nodes => f nodes
  | id :: rest, nodes => nodes.map fun n ↦
    match n.children? with
    | some children => if n.id == id then n.withChildren (update f rest children) else n
    | none => n

/-- Whether there is room for the calls that change the siblings within a scope. Each container on the
way takes one, and so do the siblings themselves. -/
def fits : Nat → Scope → Forest → Bool
  | 0, _, _ => false
  | _ + 1, [], _ => true
  | room + 1, id :: rest, nodes => nodes.all fun n ↦
    match n.children? with
    | some children => n.id != id || fits room rest children
    | none => true

/-- Changes the siblings within a scope, if the calls for it fit on the stack. -/
def boundedUpdate (f : Forest → Forest) (scope : Scope) (root : Forest) :
    Except ChangeFault Forest :=
  if fits callLimit scope root then .ok (update f scope root) else .error (.limit .tooDeep)

/-- Changes the siblings within a scope by a change that may fail. `room` is how many calls fit on the
stack, and the change has those that the way to it leaves. -/
def tryUpdate (f : Nat → Forest → Except ChangeFault Forest) :
    Nat → Scope → Forest → Except ChangeFault Forest
  | 0, _, _ => .error (.limit .tooDeep)
  | room + 1, [], nodes => f room nodes
  | room + 1, id :: rest, nodes => nodes.mapM fun n ↦
    match n.children? with
    | some children =>
      if n.id == id then n.withChildren <$> tryUpdate f room rest children else .ok n
    | none => .ok n

/-- Whether a scope leads to a list. -/
def isListAt (root : Forest) (scope : Scope) : Bool :=
  (root.container? scope).any fun n ↦ n.kind == .list

/--
Adds a node to the container of a scope. In a list it comes last and is named by the number of nodes
before it; elsewhere it needs a name that is not blank and takes the place of a node of that name.
-/
def add (supply : Supply) (root : Forest) (name kindName : String) (value : Raw) (scope : Scope) :
    Except EditFault Forest := do
  if root.isListAt scope then
    let payload ← coerce kindName value
    let new : Node := ⟨supply.id, positionName (root.within scope).length, payload⟩
    return update (· ++ [new]) scope root
  else
    if Text.isBlankText name then throw .blankName
    let payload ← coerce kindName value
    return update (putNamed ⟨supply.id, name, payload⟩) scope root

/-- Adds a node to the container of a scope, if its value can be written and the calls for it fit on
the stack. -/
def boundedAdd (supply : Supply) (root : Forest) (name kindName : String) (value : Raw)
    (scope : Scope) : Except ChangeFault Forest := do
  -- A blank name is refused before the value is looked at.
  if root.isListAt scope || !Text.isBlankText name then
    let _ ← boundedCoerce callLimit kindName value
  let changed ← (root.add supply name kindName value scope).mapError .refused
  if fits callLimit scope root then return changed else throw (.limit .tooDeep)

/-- Gives the siblings of an identity a new value of their kind. -/
def editAll (id : String) (value : Raw) (room : Nat) (nodes : Forest) :
    Except ChangeFault Forest :=
  nodes.mapM fun n ↦
    if n.id == id then
      if n.isContainer then .error (.refused (.container n.kind n.name))
      else (n.kind.boundedCoerce room value).map fun payload ↦ { n with payload := payload }
    else .ok n

/-- Replaces the value of a leaf within a scope and keeps its kind. -/
def edit (root : Forest) (id : String) (value : Raw) (scope : Scope) : Except ChangeFault Forest :=
  tryUpdate (editAll id value) callLimit scope root

/-- Removes a node within a scope. -/
def delete (root : Forest) (id : String) (scope : Scope) : Forest :=
  update (fun nodes ↦ nodes.filter fun n ↦ n.id != id) scope root

/-- Removes a node within a scope, if the calls for it fit on the stack. -/
def boundedDelete (root : Forest) (id : String) (scope : Scope) : Except ChangeFault Forest :=
  boundedUpdate (fun nodes ↦ nodes.filter fun n ↦ n.id != id) scope root

end KeyTree.Forest
