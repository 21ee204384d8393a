import KeyTree.Arithmetic.Cache
import KeyTree.Proofs.Arithmetic.Parser

/-!
# Programs from the cache

A cache starts out empty and takes in programs only with their sources, so what it holds was read of
its source at some time. While all queries leave the same room for reading, a program from the cache
is the one that reading the source gives, and what was computed before has no influence on a value. A
cache never holds more than its capacity.
-/

namespace KeyTree.Arithmetic

/-- The value of a source that is read anew, by a call inside the one for the value. -/
def value (room : Nat) (source : String) : Except Fault Float :=
  parse (room - 1) source >>= Program.evaluate room

namespace Cache

variable {room : Nat} {cache : Cache}

/-- A cache that has a place for a program, and what its programs have to do with their sources. -/
structure Holds (R : String → Program → Prop) (cache : Cache) : Prop where
  capacity_pos : 0 < cache.capacity
  programs : ∀ entry ∈ cache.recent, R entry.1 entry.2

section Holds

variable {R : String → Program → Prop} {source : String}

theorem holds_ofCapacity {capacity : Nat} (h : 0 < capacity) : (ofCapacity capacity).Holds R := by
  refine ⟨h, ?_⟩
  intro entry hentry
  cases hentry

theorem Holds.of_get? {p : Program} (h : cache.Holds R) (hget : cache.get? source = some p) :
    R source p := by
  unfold get? at hget
  obtain ⟨entry, hfind, rfl⟩ := Option.map_eq_some_iff.1 hget
  have hsource := List.find?_some hfind
  rw [beq_iff_eq] at hsource
  rw [← hsource]
  exact h.programs entry (List.mem_of_find?_eq_some hfind)

theorem Holds.use {p : Program} (h : cache.Holds R) (hp : R source p) :
    (cache.use source p).Holds R := by
  refine ⟨h.capacity_pos, ?_⟩
  intro entry hentry
  rcases List.mem_cons.1 (List.mem_of_mem_take hentry) with rfl | hold
  · exact hp
  · exact h.programs entry (List.mem_filter.1 hold).1

/-- What is held is used, whatever room there is for reading it. -/
theorem program_of_some {p : Program} (room : Nat)
    (hget : cache.get? source = some p) :
    cache.program room source = (.ok p, cache.use source p) := by
  rw [Cache.program, hget]

theorem Holds.program_of_none (h : cache.Holds R) (room : Nat) (hget : cache.get? source = none) :
    (∀ fault, parse room source = .error fault →
      cache.program room source = (.error (.arithmetic fault), cache)) ∧
    ∀ p, parse room source = .ok p →
      cache.program room source = (.ok p, cache.use source p) := by
  rw [Cache.program, hget]
  constructor
  · intro fault hparse
    rw [hparse]
  · intro p hparse
    rw [hparse]
    dsimp only
    rw [if_neg (Nat.pos_iff_ne_zero.1 h.capacity_pos)]

/-- A call takes in nothing but what is read. -/
theorem Holds.program (h : cache.Holds R) (hread : ∀ p, parse room source = .ok p → R source p) :
    (cache.program room source).2.Holds R := by
  cases hget : cache.get? source with
  | some p =>
    rw [program_of_some room hget]
    exact h.use (h.of_get? hget)
  | none =>
    obtain ⟨hrefused, haccepted⟩ := h.program_of_none room hget
    cases hparse : parse room source with
    | error fault =>
      rw [hrefused fault hparse]
      exact h
    | ok p =>
      rw [haccepted p hparse]
      exact h.use (hread p hparse)

end Holds

/-- A cache whose programs are read of their sources, with the same room for all. -/
def IsReadyFor (room : Nat) (cache : Cache) : Prop :=
  cache.Holds fun source p ↦ parse room source = .ok p

theorem isReadyFor_ofCapacity {capacity : Nat} (h : 0 < capacity) :
    (ofCapacity capacity).IsReadyFor room :=
  holds_ofCapacity h

theorem IsReadyFor.program_spec (h : cache.IsReadyFor room) (source : String) :
    (cache.program room source).1 = (parse room source).mapError .arithmetic ∧
      (cache.program room source).2.IsReadyFor room := by
  refine ⟨?_, Holds.program h fun _ ↦ id⟩
  cases hget : cache.get? source with
  | some p =>
    rw [program_of_some room hget, Holds.of_get? h hget]
    rfl
  | none =>
    obtain ⟨hrefused, haccepted⟩ := Holds.program_of_none h room hget
    cases hparse : parse room source with
    | error fault =>
      rw [hrefused fault hparse]
      rfl
    | ok p =>
      rw [haccepted p hparse]
      rfl

/-- The value of a source is the one of the source read anew. -/
theorem IsReadyFor.evaluate_spec (h : cache.IsReadyFor (room - 1)) (source : String) :
    (cache.evaluate room source).1 = (value room source).mapError .arithmetic ∧
      (cache.evaluate room source).2.IsReadyFor (room - 1) := by
  obtain ⟨hprogram, hready⟩ := h.program_spec source
  refine ⟨?_, hready⟩
  change (cache.program (room - 1) source).1 >>= _ = _
  rw [hprogram, value]
  cases parse (room - 1) source <;> rfl

/-! ## Runs of calls -/

/-- What a cache is asked for. -/
inductive Query where
  | program (source : String)
  | value (source : String)

/-- What a query gives. -/
inductive Answer where
  | program (p : Program)
  | value (x : Float)

namespace Query

/-- The source that a query is about. -/
def source : Query → String
  | program source => source
  | value source => source

/-- The answer that the program of the source gives. -/
def answerOf (room : Nat) (p : Program) : Query → Except Fault Answer
  | program _ => .ok (.program p)
  | value _ => (p.evaluate (room + 1)).map .value

/-- The answer to a query whose source is read anew. -/
def answer (room : Nat) (query : Query) : Except Fault Answer :=
  parse room query.source >>= fun p ↦ query.answerOf room p

end Query

/-- A query from somewhere on the stack, where so many calls are left for reading. -/
structure Call where
  room : Nat
  query : Query

/-- The answer to a call whose source is read anew. -/
def Call.answer (call : Call) : Except Fault Answer := call.query.answer call.room

/-- The answer from a cache, and the cache after it. A value takes a call around the reading. -/
def ask (cache : Cache) (call : Call) : Except CacheFault Answer × Cache :=
  match call.query with
  | .program source =>
    ((cache.program call.room source).1.map .program, (cache.program call.room source).2)
  | .value source =>
    ((cache.evaluate (call.room + 1) source).1.map .value,
      (cache.evaluate (call.room + 1) source).2)

/-- The cache after some calls. -/
def run (cache : Cache) (calls : List Call) : Cache :=
  calls.foldl (fun cache call ↦ (cache.ask call).2) cache

theorem run_cons (cache : Cache) (call : Call) (calls : List Call) :
    cache.run (call :: calls) = (cache.ask call).2.run calls := rfl

theorem run_append_singleton (cache : Cache) (calls : List Call) (call : Call) :
    cache.run (calls ++ [call]) = ((cache.run calls).ask call).2 := by
  rw [run, List.foldl_append]
  rfl

theorem ask_snd (cache : Cache) (call : Call) :
    (cache.ask call).2 = (cache.program call.room call.query.source).2 := by
  obtain ⟨room, query⟩ := call
  cases query with
  | program source => rfl
  | value source => rfl

/-- The answer is the one that the program of the source gives. -/
theorem ask_fst (cache : Cache) (call : Call) :
    (cache.ask call).1 = (cache.program call.room call.query.source).1 >>= fun p ↦
      (call.query.answerOf call.room p).mapError .arithmetic := by
  obtain ⟨room, query⟩ := call
  cases query with
  | program source =>
    change (cache.program room source).1.map Answer.program = (cache.program room source).1 >>= _
    cases (cache.program room source).1 <;> rfl
  | value source =>
    change ((cache.program room source).1 >>= _).map Answer.value =
      (cache.program room source).1 >>= _
    cases (cache.program room source).1 with
    | error fault => rfl
    | ok p =>
      change ((p.evaluate (room + 1)).mapError CacheFault.arithmetic).map Answer.value =
        ((p.evaluate (room + 1)).map Answer.value).mapError CacheFault.arithmetic
      cases p.evaluate (room + 1) <;> rfl

/-! ## Capacity -/

/-- The sources that a cache holds programs of, the one used last first. -/
def sources (cache : Cache) : List String := cache.recent.map (·.1)

/-- A cache of a capacity that holds each source once, and no more of them than that. -/
structure IsBounded (cache : Cache) (capacity : Nat) : Prop where
  capacity_eq : cache.capacity = capacity
  size_le : cache.size ≤ capacity
  nodup : cache.sources.Nodup

theorem isBounded_ofCapacity (capacity : Nat) : (ofCapacity capacity).IsBounded capacity :=
  ⟨rfl, Nat.zero_le capacity, List.nodup_nil⟩

theorem sources_filter (cache : Cache) (source : String) :
    (cache.recent.filter fun entry ↦ entry.1 != source).map (·.1) =
      cache.sources.filter fun other ↦ other != source := by
  rw [sources, List.filter_map]
  rfl

/-- A source that is used comes first, and it stands nowhere else. -/
theorem IsBounded.use {capacity : Nat} (h : cache.IsBounded capacity) (source : String)
    (program : Program) : (cache.use source program).IsBounded capacity := by
  refine ⟨h.capacity_eq, ?_, ?_⟩
  · rw [← h.capacity_eq]
    exact List.length_take_le _ _
  · have hothers : (cache.sources.filter fun other ↦ other != source).Nodup := h.nodup.filter _
    have hfirst : source ∉ cache.sources.filter fun other ↦ other != source := by
      intro hmem
      simpa using (List.mem_filter.1 hmem).2
    have hsources : (cache.use source program).sources =
        (source :: cache.sources.filter fun other ↦ other != source).take cache.capacity := by
      rw [Cache.sources, Cache.use, List.map_take, List.map_cons, sources_filter]
    rw [hsources]
    exact (List.nodup_cons.2 ⟨hfirst, hothers⟩).sublist (List.take_sublist _ _)

theorem IsBounded.program {capacity : Nat} (h : cache.IsBounded capacity) (room : Nat)
    (source : String) : (cache.program room source).2.IsBounded capacity := by
  unfold Cache.program
  split
  case h_1 program _ => exact h.use source program
  case h_2 =>
    split
    case h_1 => exact h
    case h_2 program _ =>
      split
      case isTrue => exact h
      case isFalse => exact h.use source program

theorem IsBounded.run {capacity : Nat} (h : cache.IsBounded capacity) (calls : List Call) :
    (cache.run calls).IsBounded capacity := by
  induction calls generalizing cache with
  | nil => exact h
  | cons call calls ih =>
    rw [run_cons, ask_snd]
    exact ih (h.program call.room call.query.source)

/-- A run takes in nothing but what its calls read. -/
theorem Holds.run {R : String → Program → Prop} (h : cache.Holds R) {calls : List Call}
    (hread : ∀ call ∈ calls, ∀ p, parse call.room call.query.source = .ok p →
      R call.query.source p) : (cache.run calls).Holds R := by
  induction calls generalizing cache with
  | nil => exact h
  | cons call calls ih =>
    obtain ⟨hcall, hcalls⟩ := List.forall_mem_cons.1 hread
    rw [run_cons, ask_snd]
    exact ih (h.program hcall) hcalls

/-- Each program that a cache holds after a run was read of its source by a call of the run. -/
theorem holds_run {capacity : Nat} (hcapacity : 0 < capacity) (calls : List Call) :
    ((ofCapacity capacity).run calls).Holds fun source p ↦
      ∃ call ∈ calls, call.query.source = source ∧ parse call.room source = .ok p :=
  (holds_ofCapacity hcapacity).run fun call hcall _ hparse ↦ ⟨call, hcall, rfl, hparse⟩

end Cache

end KeyTree.Arithmetic
