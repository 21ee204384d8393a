import KeyTree.Proofs.Arithmetic.Recency

/-!
# When a cache answers as reading anew does

What a cache holds was read of its source, but perhaps by a call that had more room. So there are
calls that are answered from the cache though their source is too deep to be read where they are made.
No other call is answered differently, and there are none while no earlier call had more room.
-/

namespace KeyTree.Arithmetic.Cache

/-- A call whose source is held, but nests too deeply to be read from where the call is made. -/
def IsOutOfReach (cache : Cache) (call : Call) : Prop :=
  cache.contains call.query.source = true ∧
    parse call.room call.query.source = .error .tooDeep

/-- What is held is the program of its source, for every room in which the source is read. -/
structure IsProgramOf (calls : List Call) (source : String) (p : Program) : Prop where
  asked : ∃ call ∈ calls, call.query.source = source ∧ parse call.room source = .ok p
  read : ∀ room, parse room source = .ok p ∨ parse room source = .error .tooDeep

variable {capacity : Nat} {calls : List Call} {call : Call}

theorem holds_isProgramOf (hcapacity : 0 < capacity) (calls : List Call) :
    ((ofCapacity capacity).run calls).Holds (IsProgramOf calls) := by
  refine ⟨(holds_run hcapacity calls).capacity_pos, fun entry hentry ↦ ?_⟩
  have hasked := (holds_run hcapacity calls).programs entry hentry
  have hread : ∀ room, parse room entry.1 = .ok entry.2 ∨ parse room entry.1 = .error .tooDeep := by
    obtain ⟨earlier, -, -, hparse⟩ := hasked
    exact parse_of_ok hparse
  exact ⟨hasked, hread⟩

/-- What a call can read is what it is given, and so are the faults of what is not held. -/
theorem ask_of_within_reach (hcapacity : 0 < capacity)
    (h : ¬ ((ofCapacity capacity).run calls).IsOutOfReach call) :
    (((ofCapacity capacity).run calls).ask call).1 = call.answer.mapError .arithmetic := by
  rw [ask_fst, Call.answer, Query.answer]
  cases hparse : parse call.room call.query.source with
  | ok p =>
    rw [program_of_ok hcapacity calls hparse]
    rfl
  | error fault =>
    have hholds := holds_run hcapacity calls
    cases hget : ((ofCapacity capacity).run calls).get? call.query.source with
    | none =>
      rw [(hholds.program_of_none call.room hget).1 fault hparse]
      rfl
    | some p =>
      have hcontains := contains_iff_get?.2 ⟨p, hget⟩
      obtain rfl := tooDeep_of_contains hcapacity hcontains hparse
      exact absurd ⟨hcontains, hparse⟩ h

/-- What is out of reach is answered with the program that is held. -/
theorem exists_ask_of_isOutOfReach {cache : Cache} (h : cache.IsOutOfReach call) :
    call.answer = .error .tooDeep ∧ ∃ p, cache.get? call.query.source = some p ∧
      (cache.ask call).1 = (call.query.answerOf call.room p).mapError .arithmetic := by
  obtain ⟨hcontains, hparse⟩ := h
  constructor
  · rw [Call.answer, Query.answer, hparse]
    rfl
  · obtain ⟨p, hget⟩ := contains_iff_get?.1 hcontains
    refine ⟨p, hget, ?_⟩
    rw [ask_fst, program_of_some call.room hget]
    rfl

/-- A source is out of reach only where an earlier call for it had more room. -/
theorem exists_room_lt_of_isOutOfReach (hcapacity : 0 < capacity)
    (h : ((ofCapacity capacity).run calls).IsOutOfReach call) :
    ∃ earlier ∈ calls, earlier.query.source = call.query.source ∧ call.room < earlier.room := by
  obtain ⟨p, hget⟩ := contains_iff_get?.1 h.1
  obtain ⟨earlier, hearlier, hsource, hread⟩ := (holds_run hcapacity calls).of_get? hget
  refine ⟨earlier, hearlier, hsource, ?_⟩
  by_contra hroom
  have hparse := parse_of_le hread (Nat.not_lt.1 hroom)
  rw [h.2] at hparse
  cases hparse

/--
After any run of calls, a cache holds each source once, no more of them than it has room for, and with
each the program that was read of it. The next call is answered as if its source was read anew, unless
the source is held and too deep to be read from where the call is made. Reading it anew would be
refused then, but the call is answered with the program that is held. That does not happen while no
earlier call for the source had more room.
-/
theorem ask_run_spec (hcapacity : 0 < capacity) (calls : List Call) (call : Call) :
    ((ofCapacity capacity).run calls).IsBounded capacity ∧
      (∀ entry ∈ ((ofCapacity capacity).run calls).recent, IsProgramOf calls entry.1 entry.2) ∧
      (¬ ((ofCapacity capacity).run calls).IsOutOfReach call →
        (((ofCapacity capacity).run calls).ask call).1 = call.answer.mapError .arithmetic) ∧
      (((ofCapacity capacity).run calls).IsOutOfReach call →
        call.answer = .error .tooDeep ∧
          ∃ p, ((ofCapacity capacity).run calls).get? call.query.source = some p ∧
            (((ofCapacity capacity).run calls).ask call).1 =
              (call.query.answerOf call.room p).mapError .arithmetic) ∧
      ((∀ earlier ∈ calls, earlier.query.source = call.query.source → earlier.room ≤ call.room) →
        ¬ ((ofCapacity capacity).run calls).IsOutOfReach call) := by
  refine ⟨(isBounded_ofCapacity capacity).run calls, (holds_isProgramOf hcapacity calls).programs,
    ask_of_within_reach hcapacity, exists_ask_of_isOutOfReach, fun hrooms hout ↦ ?_⟩
  obtain ⟨earlier, hearlier, hsource, hroom⟩ := exists_room_lt_of_isOutOfReach hcapacity hout
  exact absurd (hrooms earlier hearlier hsource) hroom.not_ge

/-- A source is computed again after another has taken its place. -/
theorem ask_run_one : 0 < 1 ∧
    (((ofCapacity 1).run ([.value "1", .program "", .value "2"].map (Call.mk 10))).ask
      ⟨10, .value "1"⟩).1 = (Call.answer ⟨10, .value "1"⟩).mapError .arithmetic := by
  obtain ⟨-, -, hsame, -, hreach⟩ := ask_run_spec Nat.one_pos
    ([.value "1", .program "", .value "2"].map (Call.mk 10)) ⟨10, .value "1"⟩
  refine ⟨Nat.one_pos, hsame (hreach fun earlier hearlier _ ↦ ?_)⟩
  obtain ⟨query, -, rfl⟩ := List.mem_map.1 hearlier
  exact le_refl 10

/-! ## A source out of reach -/

/-- The number one. -/
def one : Expression Numeral := .sum (.product (.primary (.atom ⟨['1'], none⟩)) []) []

/-- The number one, some parentheses deep. -/
def deepOne (levels : Nat) : String :=
  String.ofList ((one.enclosed levels).symbols.flatMap (Symbol.text Numeral.text))

theorem parse_deepOne (levels room : Nat) : parse room (deepOne levels) =
    if 4 * levels ≤ room then .ok (one.program Numeral.toFloat) else .error .tooDeep := by
  have hnil : Laid (Symbol.text Numeral.text) [] [] := .nil (List.forall_mem_nil _)
  have hlaid := hnil.append (one.enclosed levels).symbols_ne_nil (List.forall_mem_nil _)
  rw [List.nil_append, List.append_nil, List.append_nil] at hlaid
  have hplain : ∀ n, .atom n ∈ (one.enclosed levels).symbols → n.IsPlain := by
    intro n hn
    have hone : n = ⟨['1'], none⟩ := by
      simpa [one, Expression.symbols_enclosed, Expression.symbols, Expression.restSymbols,
        Term.symbols, Term.restSymbols, Unary.symbols, Primary.symbols, List.mem_replicate] using hn
    rw [hone]
    exact ⟨List.forall_mem_singleton.2 rfl, List.cons_ne_nil _ _⟩
  have hnesting : (one.enclosed levels).nesting = 4 * levels :=
    (one.nesting_enclosed levels).trans (Nat.zero_add _)
  rw [deepOne, hlaid.parse_eq_ite hplain, hnesting, Expression.program_enclosed]

/-- A program that has been read is evaluated where there is too little room for reading it. -/
theorem ask_value_after_program {room : Nat} {source : String} {p : Program} {x : Float}
    (hcapacity : 0 < capacity) (hread : parse (room + 1) source = .ok p)
    (hvalue : p.evaluate (room + 1) = .ok x) (hdeep : parse room source = .error .tooDeep) :
    (((ofCapacity capacity).run [⟨room + 1, .program source⟩]).ask ⟨room, .value source⟩).1 =
      .ok (.value x) ∧ Call.answer ⟨room, .value source⟩ = .error .tooDeep := by
  have hheld : (ofCapacity capacity).run [⟨room + 1, .program source⟩] =
      (ofCapacity capacity).use source p :=
    congrArg Prod.snd (program_of_ok hcapacity [] hread)
  have hget : ((ofCapacity capacity).run [⟨room + 1, .program source⟩]).get? source = some p := by
    obtain ⟨more, rfl⟩ := Nat.exists_eq_succ_of_ne_zero (Nat.pos_iff_ne_zero.1 hcapacity)
    rw [hheld]
    simp [get?, use, ofCapacity]
  obtain ⟨hanew, q, hq, hask⟩ :=
    @exists_ask_of_isOutOfReach ⟨room, .value source⟩ _ ⟨contains_iff_get?.2 ⟨p, hget⟩, hdeep⟩
  obtain rfl := Option.some.inj (hget.symm.trans hq)
  refine ⟨?_, hanew⟩
  rw [hask, Query.answerOf, hvalue]
  rfl

theorem exists_isOutOfReach : ∃ source x,
    (((ofCapacity 1).run [⟨972, .program source⟩]).ask ⟨971, .value source⟩).1 =
      .ok (.value x) ∧ Call.answer ⟨971, .value source⟩ = .error .tooDeep := by
  have hread : parse 972 (deepOne 243) = .ok (one.program Numeral.toFloat) :=
    (parse_deepOne 243 972).trans (if_pos (by decide))
  have hdeep : parse 971 (deepOne 243) = .error .tooDeep :=
    (parse_deepOne 243 971).trans (if_neg (by decide))
  have hvalue : (one.program Numeral.toFloat).evaluate 972 =
      .ok (one.program Numeral.toFloat).value := if_pos (Nat.le_add_left 1 971)
  exact ⟨_, _, ask_value_after_program Nat.one_pos hread hvalue hdeep⟩

end KeyTree.Arithmetic.Cache
