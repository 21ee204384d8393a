import KeyTree.Proofs.Command.Lines
import KeyTree.Proofs.Document.Restore

/-!
# Commands on one file

Every command opens the file anew and closes it again. Unless a file cannot be read or written or a
tree nests too deeply, this cannot be seen: the commands answer as one session does that starts from
the same tree and keeps nothing.
-/

namespace KeyTree.Command

/-! ## Opening again -/

/-- Opening the file at a path gives a session that cannot be told apart from another one. -/
inductive Reopens (settings : Settings) (path : String) (w : Workspace) (t : Session) : Prop
  | intro {slot : Slot} {root : Forest} {rest : Supply} {E : String → String → Prop}
      (hfind : w.files.find path = .ok slot) (hgives : Gives w.supply slot root rest)
      (hE : IsPairing E) (hsound : (Session.start settings root slot true rest).IsSound)
      (htwins : Session.Twins E settings.exportIndent (.start settings root slot true rest) t)

/-! ## One command beside one action -/

variable {library : UrlLibrary} {settings : Settings} {path : String} {w : Workspace} {t : Session}
  {action : Action}

/-- What a command does that keeps what its action has saved. -/
theorem act_spec {opened : Opened} {reply : Reply} {s : Session}
    (hperform : action.perform library opened.session = (reply, s))
    (hreply : reply.isUnsaved = false) (hfollows : Session.Follows opened.session s)
    (hkept : opened.session.isKept = true)
    (hslot : opened.session.slot ≠ .directory) (hlow : s.root.IsStorable)
    (hfile : ∀ fault, (act library w opened action).1.ending ≠ .failed (.file fault)) :
    (act library w opened action).1 =
        ⟨Note.ofAction library opened.path opened.session action, .ofReply reply⟩ ∧
      (act library w opened action).2.supply = s.supply ∧
      ((act library w opened action).2.files = w.files ∧ s.root = opened.session.root ∨
        (act library w opened action).2.files.find opened.path =
          .ok (.ofText s.root.recordText)) := by
  have hkeep := @keep_spec w.files opened reply s hreply hfollows hkept hslot hlow
  unfold act at hfile ⊢
  rw [hperform] at hfile ⊢
  dsimp only at hfile ⊢
  generalize keep w.files opened reply s = kept at hkeep hfile ⊢
  obtain ⟨saving, files⟩ := kept
  rcases hkeep with ⟨fault, rfl⟩ | ⟨rfl, hfiles⟩
  · exact absurd rfl (hfile fault)
  · exact ⟨rfl, rfl, hfiles⟩

/-- The tree that is had anew when nothing has been saved differs in its identities only. -/
theorem exists_relabelled (u v : Supply) (nodes : Forest)
    (h : u.next + (Forest.ids nodes).length ≤ v.next) :
    ∃ E, IsPairing E ∧ Forest.Twins E (v.labelAll nodes).1 (u.labelAll nodes).1 ∧
      Supply.Twin E (v.labelAll nodes).2 v := by
  let count := (Forest.ids nodes).length
  -- The first identities of the one supply stand for the first of the other, and what follows them
  -- stands for what the other supply has still to give out.
  let target (i : Nat) : Nat := if i < count then u.next + i else v.next + (i - count)
  have htargets : Function.Injective target := by
    intro i j hij
    simp only [target, count] at hij
    split at hij <;> split at hij <;> omega
  refine ⟨_, isPairing_idOf (add_right_injective v.next) htargets, ?_, ?_⟩
  · apply Supply.labelAll_twins
    intro i hi
    have htarget : target i = u.next + i := if_pos hi
    exact ⟨i, rfl, by rw [htarget]⟩
  · intro i
    rw [(Supply.labelAll_spec v nodes).2.1]
    refine ⟨count + i, ?_, ?_⟩
    · rw [Supply.skip, Nat.add_assoc]
    · simp only [target, Nat.not_lt.2 (Nat.le_add_right count i), if_false, Nat.add_sub_cancel_left]

/-- A session that starts from a twin of a tree cannot be told apart from one that has the tree. -/
theorem twins_start {E F : String → String → Prop} {s : Session} {root : Forest} {slot : Slot}
    {rest : Supply} (h : Session.Twins F settings.exportIndent s t)
    (hcache : 0 < settings.cacheSize) (hslot : slot ≠ .directory) (hroot : Forest.Twins E root t.root)
    (hsupply : Supply.Twin E rest t.supply) :
    Session.Twins E settings.exportIndent (.start settings root slot true rest) t where
  root := hroot
  supply := hsupply
  cache := Arithmetic.Cache.isReady_ofCapacity (Int.pos_iff_toNat_pos.1 hcache)
  cache' := h.cache'
  exportIndent := rfl
  exportIndent' := h.exportIndent'
  slot := hslot
  isKept := h.isKept

/-- Notes that are not for all are dropped from a response. -/
theorem quiet_filter {notes : List Note} {ending : Ending} {p : Note → Bool}
    (h : ∀ note ∈ notes, note.IsQuiet) :
    Response.quiet ⟨notes.filter p, ending⟩ = ⟨[], ending⟩ := by
  have hnone : (notes.filter p).filter (Note.isShown false) = [] := by
    rw [List.filter_eq_nil_iff]
    intro note hnote
    rw [h note (List.mem_filter.1 hnote).1]
    exact Bool.false_ne_true
  rw [Response.quiet, hnone]

/-- After an action the file gives a session again that cannot be told apart, whether the action has
saved its tree or the file is as before. -/
theorem reopens_after {w' : Workspace} {slot : Slot} {root : Forest} {supply rest : Supply}
    {E : String → String → Prop} {s : Session} (hgives : Gives supply slot root rest)
    (hcache : 0 < settings.cacheSize) (hE : IsPairing E)
    (htwins : Session.Twins E settings.exportIndent s t) (hsound : s.IsSound)
    (hlow : s.root.IsStorable) (hsupply : w'.supply = s.supply)
    (hissued : ∃ count, s.supply = rest.skip count)
    (hfiles : w'.files.find path = .ok slot ∧ s.root = root ∨
      w'.files.find path = .ok (.ofText s.root.recordText)) :
    Reopens settings path w' t := by
  have hslot := hgives.ne_directory
  have hpaired : Supply.Twin E w'.supply t.supply := hsupply ▸ htwins.supply
  rcases hfiles with ⟨hfind, hroot⟩ | hfind
  · cases hgives with
    | missing =>
      -- Nothing has been kept yet, so the next command makes the first tree anew, with identities
      -- that come after those of this command.
      obtain ⟨count, hcount⟩ := hissued
      have hnext : supply.next + (Forest.ids Forest.sample).length ≤ w'.supply.next := by
        rw [hsupply, hcount, (Supply.labelAll_spec supply Forest.sample).2.1, Supply.skip_skip]
        exact Nat.add_le_add_left (Nat.le_add_right _ count) supply.next
      obtain ⟨F, hF, hroots, hsupplies⟩ := exists_relabelled supply w'.supply Forest.sample hnext
      refine .intro hfind .missing (hF.comp hE) ⟨?_, ?_⟩ ?_
      · exact (Supply.hasUniqueNames_labelAll w'.supply _).2 Forest.hasUniqueNames_sample
      · exact Forest.isIdentified_labelAll w'.supply Forest.sample
      · apply twins_start htwins hcache hslot
        · exact Forest.Twins.trans hroots (hroot ▸ htwins.root)
        · exact fun i ↦ ⟨_, hsupplies i, hpaired i⟩
    | file hread =>
      refine .intro hfind (.file hread) hE ⟨?_, ?_⟩ ?_
      · exact hroot ▸ hsound.names
      · rw [hsupply, ← hroot]
        exact hsound.ids
      · exact twins_start htwins hcache hslot (hroot ▸ htwins.root) hpaired
  · have hread := Slot.read_ofText_recordText hsound.names.2 hlow
    refine .intro hfind (.file hread) hE ⟨?_, ?_⟩ ?_
    · exact ⟨(Shape.admits_congr (Forest.names_mapLeaves _ s.root)).2 hsound.names.1,
        Forest.hasUniqueNames_mapLeaves _ s.root hsound.names.2⟩
    · have hids := Forest.ids_mapLeaves Leaf.withoutNegativeZero s.root
      exact ⟨hids ▸ hsound.ids.nodup, hids ▸ hsupply ▸ hsound.ids.fresh⟩
    · exact twins_start htwins hcache Slot.noConfusion (Forest.Twins.mapLeaves htwins.root) hpaired

/-- A command answers as the action does on the other session, and leaves a file that gives a
session that cannot be told apart again. -/
theorem Reopens.step {line : Line} (h : Reopens settings path w t)
    (hcache : 0 < settings.cacheSize) (haction : line.action? settings path w = some action)
    (hfile : ∀ fault, (line.run library settings w).1.ending ≠ .failed (.file fault))
    (hlow : (action.perform library t).2.root.IsStorable) :
    (line.run library settings w).1.quiet = .ofReply (action.perform library t).1 ∧
      Reopens settings path (line.run library settings w).2 (action.perform library t).2 := by
  cases h with
  | @intro slot root rest E hfind hgives hE hsound htwins =>
    have hopen : openAt (line.workspace w) settings path = _ := Gives.openAt_eq hgives hfind
    obtain ⟨isVerbose, hrun⟩ := run_of_action library haction hopen
    have hfollows := Action.follows_perform library hsound.ids.nodup action
    have hanswers := Action.answers_perform library hE htwins action
    rw [hrun] at hfile ⊢
    dsimp only at hfile ⊢
    cases hs : action.perform library (.start settings root slot true rest) with
    | mk reply s' =>
      cases ht : action.perform library t with
      | mk reply' t' =>
        rw [hs, ht] at hanswers
        rw [hs] at hfollows
        rw [ht] at hlow
        cases hanswers with
        | unsaved hdeep => exact absurd hdeep hlow.height_le.not_gt
        | same hreply htwins' =>
          -- Twins are equally high, so what is low in memory can be kept.
          have hlow' : s'.root.IsStorable := by
            unfold Forest.IsStorable
            rwa [htwins'.root.height_eq]
          obtain ⟨hresponse, hsupply, hfiles⟩ :=
            act_spec hs hreply hfollows rfl hgives.ne_directory hlow' hfile
          constructor
          · rw [quiet_filter, hresponse]
            · rfl
            · intro note hnote
              rw [hresponse] at hnote
              rcases List.mem_append.1 hnote with hnote | hnote
              · exact hgives.isQuiet_of_mem_ofOpening hnote
              · exact Note.isQuiet_of_mem_ofAction hnote
          · have hissued := hfollows.root.imp fun _ h ↦ h.1
            refine reopens_after hgives hcache hE htwins' (hsound.follows hfollows) hlow' hsupply
              hissued ?_
            rcases hfiles with ⟨hfiles, hroot⟩ | hfind'
            · rw [hfiles]
              exact .inl ⟨hfind, hroot⟩
            · exact .inr hfind'

/-- Commands answer as a session does that the file cannot be told apart from. -/
theorem Reopens.run {lines : List Line} {actions : List Action} (h : Reopens settings path w t)
    (hcache : 0 < settings.cacheSize)
    (hactions : actions? library settings path w lines = some actions)
    (hfile : ∀ response ∈ responses library settings w lines, ∀ fault,
      response.ending ≠ .failed (.file fault))
    (hlow : ∀ root ∈ trees library t actions, root.IsStorable) :
    (responses library settings w lines).map Response.quiet =
      (replies library t actions).map Response.ofReply := by
  -- The induction is on the lines. Between two of them only the file is left of the one session,
  -- and `Reopens` says what it gives.
  induction lines generalizing w t actions with
  | nil =>
    obtain rfl := Option.some.inj hactions
    rfl
  | cons line lines ih =>
    obtain ⟨action, haction, hlater⟩ := Option.bind_eq_some_iff.1 hactions
    obtain ⟨rest, hrest, hcons⟩ := Option.bind_eq_some_iff.1 hlater
    obtain rfl : action :: rest = actions := Option.some.inj hcons
    rw [responses, List.forall_mem_cons] at hfile
    rw [trees, List.forall_mem_cons] at hlow
    obtain ⟨hquiet, hreopens⟩ := h.step hcache haction hfile.1 hlow.1
    rw [responses, replies, List.map_cons, List.map_cons, hquiet]
    exact congrArg _ (ih hreopens hrest hfile.2 hlow.2)

theorem Ending.eq_done_of_ofReply {reply : Reply} {output : String}
    (h : Ending.ofReply reply = .done output) : reply = .done output := by
  cases reply with
  | done _ => exact congrArg Reply.done (Ending.done.inj h)
  | refused _ => cases h
  | failed _ => cases h

theorem Response.exists_done_of_status {r : Response} (h : r.status = 0) :
    ∃ output, r.ending = .done output := by
  unfold Response.status at h
  split at h
  case h_1 output hdone => exact ⟨output, hdone⟩
  case h_2 => cases h
  case h_3 => cases h
  case h_4 => cases h

/-- Settings with the tree in a file of the working directory. -/
def besideSettings : Settings := { Settings.standard "/home/user" with storagePath := "jar.json" }

/-- A working directory with nothing in it. -/
def bare : Workspace := ⟨[], [], ⟨0⟩⟩

section TooDeep

variable {settings : Settings} {key text : String} {path : Path}

end TooDeep

end KeyTree.Command
