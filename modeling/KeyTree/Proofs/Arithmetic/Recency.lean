import KeyTree.Proofs.Arithmetic.Cache
import KeyTree.Proofs.Arithmetic.Literal
import Mathlib.Data.List.Dedup
import Mathlib.Data.List.Induction

/-!
# What a cache holds after a run

The sources that a run gives programs of, each where it was asked for last, are those that a cache
without bounds would hold. A cache holds the latest of them, as many as it has room for. A source that
is no expression leaves no trace, and one whose program has no value is used like any other.
-/

namespace KeyTree.Arithmetic

/-! ## Lists in the order of last mention -/

section

variable {α : Type} [DecidableEq α]

/-- What is added at the end takes the place of what was equal to it. -/
theorem dedup_append_singleton (xs : List α) (x : α) :
    (xs ++ [x]).dedup = xs.dedup.filter (· != x) ++ [x] := by
  induction xs with
  | nil => rfl
  | cons y xs ih =>
    rw [List.cons_append]
    by_cases hmem : y ∈ xs
    · rw [List.dedup_cons_of_mem (List.mem_append_left _ hmem), List.dedup_cons_of_mem hmem, ih]
    · rw [List.dedup_cons_of_notMem hmem]
      by_cases hyx : y = x
      · have hlast : y ∈ xs ++ [x] := List.mem_append_right _ (List.mem_singleton.2 hyx)
        rw [List.dedup_cons_of_mem hlast, ih, List.filter_cons_of_neg (by simpa using hyx)]
      · have hnone : y ∉ xs ++ [x] := by
          rw [List.mem_append, List.mem_singleton, not_or]
          exact ⟨hmem, hyx⟩
        rw [List.dedup_cons_of_notMem hnone, ih, List.filter_cons_of_pos (by simpa using hyx),
          List.cons_append]

/-- Elements that are cut off do not come back when one that is left is taken out. -/
theorem take_filter_take {xs : List α} (hnodup : xs.Nodup) (x : α) (count : Nat) :
    ((xs.take (count + 1)).filter (· != x)).take count = (xs.filter (· != x)).take count := by
  induction xs generalizing count with
  | nil => rfl
  | cons y xs ih =>
    obtain ⟨hy, hnodup⟩ := List.nodup_cons.1 hnodup
    rw [List.take_succ_cons]
    by_cases hyx : y = x
    · -- The element taken out is at the front, so the others are as many as are wanted.
      have hothers : ∀ z ∈ xs, (z != x) = true := by
        intro z hz
        rw [bne_iff_ne]
        rintro rfl
        exact hy (hyx ▸ hz)
      have htaken : ∀ z ∈ xs.take count, (z != x) = true :=
        fun z hz ↦ hothers z (List.mem_of_mem_take hz)
      have hfront : ¬ (y != x) = true := by simpa using hyx
      rw [List.filter_cons_of_neg (p := (· != x)) hfront,
        List.filter_cons_of_neg (p := (· != x)) hfront, List.filter_eq_self.2 hothers,
        List.filter_eq_self.2 htaken, List.take_take, Nat.min_self]
    · have hfront : (y != x) = true := by simpa using hyx
      rw [List.filter_cons_of_pos (p := (· != x)) hfront,
        List.filter_cons_of_pos (p := (· != x)) hfront]
      cases count with
      | zero => rfl
      | succ count => rw [List.take_succ_cons, List.take_succ_cons, ih hnodup]

end

namespace Cache

/-- Whether the source of a call can be read from where the call is made. -/
def Call.isRead (call : Call) : Bool := (parse call.room call.query.source).isOk

/-- Each source can be read by all calls for it or by none of them. -/
def IsUniform (calls : List Call) : Prop :=
  ∀ call ∈ calls, ∀ call' ∈ calls, call.query.source = call'.query.source →
    call.isRead = call'.isRead

theorem isUniform_map (room : Nat) (queries : List Query) :
    IsUniform (queries.map (Call.mk room)) := by
  intro call hcall call' hcall' hsource
  obtain ⟨query, -, rfl⟩ := List.mem_map.1 hcall
  obtain ⟨query', -, rfl⟩ := List.mem_map.1 hcall'
  exact congrArg (fun source ↦ (parse room source).isOk) hsource

/-- Whether a call is given a program. -/
def takes (cache : Cache) (call : Call) : Bool :=
  (cache.program call.room call.query.source).1.isOk

/-- The sources of the calls that are given a program. -/
def taken (cache : Cache) : List Call → List String
  | [] => []
  | call :: calls =>
    if cache.takes call then call.query.source :: taken (cache.ask call).2 calls
    else taken (cache.ask call).2 calls

/-- The sources whose programs a run gives, each where it was asked for last, the latest first. -/
def latest (cache : Cache) (calls : List Call) : List String := (cache.taken calls).dedup.reverse

theorem nodup_latest (cache : Cache) (calls : List Call) : (cache.latest calls).Nodup :=
  List.nodup_reverse.2 (List.nodup_dedup _)

theorem taken_append_singleton (cache : Cache) (calls : List Call) (call : Call) :
    cache.taken (calls ++ [call]) =
      cache.taken calls ++ if (cache.run calls).takes call then [call.query.source] else [] := by
  induction calls generalizing cache with
  | nil => rfl
  | cons first calls ih =>
    rw [List.cons_append, taken, taken, ih, run_cons]
    split
    case isTrue => rfl
    case isFalse => rfl

/-- One more call brings its source to the front, if it is given a program. -/
theorem latest_append_singleton (cache : Cache) (calls : List Call) (call : Call) :
    cache.latest (calls ++ [call]) =
      if (cache.run calls).takes call then
        call.query.source :: (cache.latest calls).filter (· != call.query.source)
      else cache.latest calls := by
  unfold latest
  rw [taken_append_singleton]
  split
  case isTrue =>
    rw [dedup_append_singleton, List.reverse_append, List.reverse_singleton, List.singleton_append,
      List.filter_reverse]
  case isFalse => rw [List.append_nil]

/-! ## One call -/

variable {cache : Cache} {R : String → Program → Prop}

theorem sources_use (cache : Cache) (source : String) (program : Program) :
    (cache.use source program).sources =
      (source :: cache.sources.filter (· != source)).take cache.capacity := by
  rw [sources, use, List.map_take, List.map_cons, sources_filter]

theorem contains_iff (cache : Cache) (source : String) :
    cache.contains source = true ↔ source ∈ cache.sources := by
  rw [contains, sources, List.any_eq_true, List.mem_map]
  constructor
  · rintro ⟨entry, hentry, hsource⟩
    exact ⟨entry, hentry, eq_of_beq hsource⟩
  · rintro ⟨entry, hentry, hsource⟩
    exact ⟨entry, hentry, beq_iff_eq.2 hsource⟩

theorem contains_iff_get? {source : String} :
    cache.contains source = true ↔ ∃ p, cache.get? source = some p := by
  rw [contains, List.any_eq_true, get?]
  constructor
  · intro hheld
    obtain ⟨entry, hfind⟩ := Option.isSome_iff_exists.1 (List.find?_isSome.2 hheld)
    exact ⟨entry.2, congrArg (Option.map (·.2)) hfind⟩
  · rintro ⟨p, hget⟩
    obtain ⟨entry, hfind, -⟩ := Option.map_eq_some_iff.1 hget
    have hsource := List.find?_some hfind
    exact ⟨entry, List.mem_of_find?_eq_some hfind, hsource⟩

/-- A call that is given no program leaves the cache as it is, and a call that is given one makes its
source the one used last. -/
theorem Holds.ask_cases (h : cache.Holds R) (call : Call) :
    (cache.takes call = false ∧ (cache.ask call).2 = cache) ∨
      ∃ p, cache.takes call = true ∧ (cache.ask call).2 = cache.use call.query.source p := by
  rw [takes, ask_snd]
  cases hget : cache.get? call.query.source with
  | some p =>
    rw [program_of_some call.room hget]
    exact .inr ⟨p, rfl, rfl⟩
  | none =>
    obtain ⟨hrefused, haccepted⟩ := h.program_of_none call.room hget
    cases hparse : parse call.room call.query.source with
    | error fault =>
      rw [hrefused fault hparse]
      exact .inl ⟨rfl, rfl⟩
    | ok p =>
      rw [haccepted p hparse]
      exact .inr ⟨p, rfl, rfl⟩

theorem Holds.sources_ask (h : cache.Holds R) (call : Call) :
    (cache.ask call).2.sources =
      if cache.takes call then
        (call.query.source :: cache.sources.filter (· != call.query.source)).take cache.capacity
      else cache.sources := by
  obtain ⟨htakes, hcache⟩ | ⟨p, htakes, hcache⟩ := h.ask_cases call
  · rw [hcache, htakes, if_neg Bool.false_ne_true]
  · rw [hcache, htakes, if_pos rfl, sources_use]

/-- A source that cannot be read and is not held changes nothing. -/
theorem Holds.ask_of_error (h : cache.Holds R) {call : Call} {fault : Fault}
    (hparse : parse call.room call.query.source = .error fault)
    (hfree : cache.contains call.query.source = false) : (cache.ask call).2 = cache := by
  rw [ask_snd]
  cases hget : cache.get? call.query.source with
  | some p =>
    rw [contains_iff_get?.2 ⟨p, hget⟩] at hfree
    cases hfree
  | none =>
    rw [(h.program_of_none call.room hget).1 fault hparse]

/-! ## Runs -/

variable {capacity : Nat}

/-- The cache holds the latest sources, and what it has no room for does not come back. -/
theorem sources_run (hcapacity : 0 < capacity) (calls : List Call) :
    ((ofCapacity capacity).run calls).sources =
      ((ofCapacity capacity).latest calls).take capacity := by
  induction calls using List.reverseRecOn with
  | nil => exact List.take_nil.symm
  | append_singleton calls call ih =>
    have hholds := holds_run hcapacity calls
    have hbounded := (isBounded_ofCapacity capacity).run calls
    obtain ⟨more, rfl⟩ := Nat.exists_eq_succ_of_ne_zero (Nat.pos_iff_ne_zero.1 hcapacity)
    rw [run_append_singleton, hholds.sources_ask, latest_append_singleton, hbounded.capacity_eq, ih]
    split
    case isTrue =>
      rw [List.take_succ_cons, List.take_succ_cons, take_filter_take (nodup_latest _ calls)]
    case isFalse => rfl

/-- What is held can be read, so what cannot be read for another reason than its depth is not held. -/
theorem tooDeep_of_contains (hcapacity : 0 < capacity) {calls : List Call} {room : Nat}
    {source : String} {fault : Fault}
    (hcontains : ((ofCapacity capacity).run calls).contains source = true)
    (hparse : parse room source = .error fault) : fault = .tooDeep := by
  obtain ⟨entry, hentry, hsource⟩ := List.any_eq_true.1 hcontains
  obtain ⟨call, -, -, hread⟩ := (holds_run hcapacity calls).programs entry hentry
  rw [eq_of_beq hsource] at hread
  obtain hok | hdeep := parse_of_ok hread room
  · rw [hparse] at hok
    cases hok
  · rw [hparse] at hdeep
    exact Except.error.inj hdeep

/-- A program that can be read is given and used. -/
theorem program_of_ok (hcapacity : 0 < capacity) (calls : List Call) {room : Nat} {source : String}
    {p : Program} (hparse : parse room source = .ok p) :
    ((ofCapacity capacity).run calls).program room source =
      (.ok p, ((ofCapacity capacity).run calls).use source p) := by
  have hholds := holds_run hcapacity calls
  cases hget : ((ofCapacity capacity).run calls).get? source with
  | none => exact (hholds.program_of_none room hget).2 p hparse
  | some held =>
    obtain ⟨call, -, -, hread⟩ := hholds.of_get? hget
    obtain hok | hdeep := parse_of_ok hread room
    · rw [hparse] at hok
      rw [program_of_some room hget, Except.ok.inj hok]
    · rw [hparse] at hdeep
      cases hdeep

/-- Where a source can be read by all calls for it or by none, those that can be read are taken. -/
theorem taken_of_isUniform (hcapacity : 0 < capacity) {calls : List Call} (h : IsUniform calls) :
    (ofCapacity capacity).taken calls = (calls.filter Call.isRead).map (·.query.source) := by
  induction calls using List.reverseRecOn with
  | nil => rfl
  | append_singleton calls call ih =>
    have hbefore : IsUniform calls := fun first hfirst second hsecond ↦
      h first (List.mem_append_left _ hfirst) second (List.mem_append_left _ hsecond)
    have hlast : call ∈ calls ++ [call] := List.mem_append_right _ (List.mem_singleton_self call)
    have htakes : ((ofCapacity capacity).run calls).takes call = call.isRead := by
      cases hparse : parse call.room call.query.source with
      | ok p =>
        rw [takes, program_of_ok hcapacity calls hparse, Call.isRead, hparse]
        rfl
      | error fault =>
        have hunread : call.isRead = false := by
          rw [Call.isRead, hparse]
          rfl
        have hholds := holds_run hcapacity calls
        cases hget : ((ofCapacity capacity).run calls).get? call.query.source with
        | none =>
          rw [takes, (hholds.program_of_none call.room hget).1 fault hparse, hunread]
          rfl
        | some p =>
          -- What is held was read by an earlier call for the same source.
          obtain ⟨earlier, hearlier, hsource, hread⟩ := hholds.of_get? hget
          have hsame := h earlier (List.mem_append_left _ hearlier) call hlast hsource
          rw [hunread, Call.isRead, hsource, hread] at hsame
          cases hsame
    rw [taken_append_singleton, ih hbefore, htakes, List.filter_append, List.map_append]
    split
    case isTrue hread => rw [List.filter_cons_of_pos hread, List.filter_nil, List.map_singleton]
    case isFalse hunread => rw [List.filter_cons_of_neg hunread, List.filter_nil, List.map_nil]

/--
After any run a cache holds the sources that were given a program last, the latest first, as many as
it has room for, and no others. A call whose source cannot be read changes nothing, except that one
that is held still counts where only the room for reading it is missing. A call whose source can be
read brings it to the front, also where its program has no value. Where no source can be read by one
call and is too deep for another, the sources given a program are those that can be read.
-/
theorem holds_latest_run (hcapacity : 0 < capacity) (calls : List Call) :
    ((ofCapacity capacity).run calls).sources =
        ((ofCapacity capacity).latest calls).take capacity ∧
      (∀ source, ((ofCapacity capacity).run calls).contains source = true ↔
        source ∈ ((ofCapacity capacity).latest calls).take capacity) ∧
      ((ofCapacity capacity).run calls).size =
        min capacity ((ofCapacity capacity).latest calls).length ∧
      ((ofCapacity capacity).run calls).size ≤ capacity ∧
      (∀ call fault, parse call.room call.query.source = .error fault →
        (fault = .tooDeep → ((ofCapacity capacity).run calls).contains call.query.source = false) →
        (((ofCapacity capacity).run calls).ask call).2 = (ofCapacity capacity).run calls) ∧
      (∀ room source p fault, parse room source = .ok p →
        p.evaluate (room + 1) = .error fault →
        (((ofCapacity capacity).run calls).ask ⟨room, .value source⟩).1 =
            .error (.arithmetic fault) ∧
          (((ofCapacity capacity).run calls).ask ⟨room, .value source⟩).2.sources.head? =
            some source) ∧
      (IsUniform calls → (ofCapacity capacity).latest calls =
        ((calls.filter Call.isRead).map (·.query.source)).dedup.reverse) := by
  have hholds := holds_run hcapacity calls
  have hbounded := (isBounded_ofCapacity capacity).run calls
  have hsources := sources_run hcapacity calls
  have hsize : ((ofCapacity capacity).run calls).size =
      min capacity ((ofCapacity capacity).latest calls).length := by
    have hlength := congrArg List.length hsources
    rwa [sources, List.length_map, List.length_take] at hlength
  refine ⟨hsources, fun source ↦ ?_, hsize, hbounded.size_le, fun call fault hparse hfree ↦ ?_,
    fun room source p fault hparse hvalue ↦ ⟨?_, ?_⟩, fun huniform ↦ ?_⟩
  · rw [contains_iff, hsources]
  · apply hholds.ask_of_error hparse
    rw [← Bool.not_eq_true]
    intro hcontains
    rw [hfree (tooDeep_of_contains hcapacity hcontains hparse)] at hcontains
    cases hcontains
  · rw [ask_fst]
    dsimp only [Query.source]
    rw [program_of_ok hcapacity calls hparse]
    change ((p.evaluate (room + 1)).map Answer.value).mapError CacheFault.arithmetic = _
    rw [hvalue]
    rfl
  · obtain ⟨more, rfl⟩ := Nat.exists_eq_succ_of_ne_zero (Nat.pos_iff_ne_zero.1 hcapacity)
    have hprogram := program_of_ok hcapacity calls hparse
    rw [ask_snd]
    dsimp only [Query.source]
    rw [hprogram, sources_use, hbounded.capacity_eq]
    rfl
  · rw [latest, taken_of_isUniform hcapacity huniform]

/-- With room for two, the source that has come back stays and the one not used since then goes. -/
theorem holds_latest_run_two : 0 < 2 ∧
    ((ofCapacity 2).run ([.value "1", .program "2", .program "", .value "1", .value "3"].map
      (Call.mk 10))).sources = ["3", "1"] := by
  have hempty : Call.isRead ⟨10, .program ""⟩ = false := by
    have hparse : parse 10 "" = .error .empty := by
      rw [parse, tokens, String.toList_empty]
      unfold tokensFrom
      rfl
    rw [Call.isRead]
    dsimp only [Query.source]
    rw [hparse]
    rfl
  have hdigit {d : Char} (hd : Text.isPlainDigit d = true) :
      (parse 10 (String.ofList [d])).isOk = true := by
    have hplain : (⟨[d], none⟩ : Numeral).IsPlain :=
      ⟨List.forall_mem_singleton.2 hd, List.cons_ne_nil _ _⟩
    have hsurrounded : (⟨[d], none⟩ : Numeral).Surrounded Text.isBlank [d] :=
      ⟨hplain, [], [], List.forall_mem_nil _, List.forall_mem_nil _, rfl⟩
    rw [parse_of_surrounded hsurrounded]
    rfl
  have hone : Call.isRead ⟨10, .value "1"⟩ = true := hdigit (d := '1') rfl
  have htwo : Call.isRead ⟨10, .program "2"⟩ = true := hdigit (d := '2') rfl
  have hthree : Call.isRead ⟨10, .value "3"⟩ = true := hdigit (d := '3') rfl
  obtain ⟨hsources, -, -, -, -, -, hlatest⟩ := holds_latest_run Nat.two_pos
    ([.value "1", .program "2", .program "", .value "1", .value "3"].map (Call.mk 10))
  rw [hlatest (isUniform_map _ _)] at hsources
  simp only [List.map_cons, List.map_nil, List.filter_cons, hone, htwo, hthree, hempty,
    Bool.false_eq_true, if_true, if_false, List.filter_nil, Query.source] at hsources
  exact ⟨Nat.two_pos, hsources⟩

end Cache

end KeyTree.Arithmetic
