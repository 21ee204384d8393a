import KeyTree.Proofs.Results
import KeyTree.Proofs.Url.Authority
import KeyTree.Proofs.Url.Paths

/-!
# Addresses with another query

An address that gets another query is read anew part by part. All of its other parts read as they are,
but for the host, which is brought into lower case, and a port that is the default one of the scheme as
it is now written. So an address is settled once its query is replaced for the first time.
-/

namespace KeyTree.Url

/-! ## Addresses that were read -/

def hasAuthority (url : Url) : Bool :=
  !url.userinfo.isEmpty || !url.host.isEmpty || url.port.isSome

/-- What holds of the parts of an address that was read. -/
structure IsRead (url : Url) : Prop where
  scheme : url.scheme.map Char.toLower = url.scheme
  userinfo : ∀ c ∈ url.userinfo, isEncoded isUserinfoSafe c = true
  host : IsHost url.host
  port : ∀ number ∈ url.port, number.natAbs < 10 ^ TooManyDigits.limit
  path : ∀ c ∈ url.path, isEncoded isPathSafe c = true
  allowed : checkPath (!url.scheme.isEmpty) url.hasAuthority url.path = .ok ()
  resolved : (!url.scheme.isEmpty || url.hasAuthority) = true → IsResolved url.path
  fragment : ∀ s ∈ url.fragment, ∀ c ∈ s, isEncoded isFragmentSafe c = true

theorem isRead_of_ofWritten {parts : Written} {url : Url} (h : ofWritten parts = .ok url) :
    url.IsRead := by
  rw [ofWritten] at h
  dsimp only at h
  obtain ⟨host, hhost, h⟩ := exists_of_bind_eq_ok h
  obtain ⟨port, hport, h⟩ := exists_of_bind_eq_ok h
  obtain ⟨⟨⟩, hpath, h⟩ := exists_of_bind_eq_ok h
  obtain rfl := Except.ok.inj h
  constructor
  case scheme =>
    rw [List.map_map]
    exact List.map_congr_left fun c _ ↦ Char.toLower_toLower_eq_toLower c
  case userinfo => exact fun c ↦ isEncoded_of_mem_percentEncode (by decide)
  case host => exact isHost_of_readHost (not_mem_splitHost _) hhost
  case port => exact natAbs_lt_of_readPort hport
  case path => exact fun c ↦ isEncoded_of_mem_percentEncode (by decide)
  case allowed =>
    rw [List.isEmpty_map]
    exact checkPath_readPath hpath
  case resolved =>
    rw [List.isEmpty_map]
    exact isResolved_readPath
  case fragment =>
    intro s hs c
    obtain ⟨written, -, rfl⟩ := Option.map_eq_some_iff.1 hs
    exact isEncoded_of_mem_percentEncode (by decide)

/-! ## Settled addresses -/

/-- An address as it is when it is read again. -/
def settled (url : Url) : Url :=
  { url with
    host := settledHost url.host
    port := settledPort url.scheme url.port }

variable {url : Url}

theorem settled_settled (url : Url) : url.settled.settled = url.settled := by
  rw [settled, settled, settledHost_settledHost, settledPort_settledPort]

theorem isEmpty_settledHost (host : List Char) : (settledHost host).isEmpty = host.isEmpty := by
  rw [settledHost]
  split
  · rfl
  · exact List.isEmpty_map

/-- Without a scheme, no port is left out. -/
theorem settledPort_nil (port : Option Int) : settledPort [] port = port := by
  cases port with
  | none => rfl
  | some number => rfl

theorem hasAuthority_of_settled (h : url.settled.hasAuthority = true) : url.hasAuthority = true := by
  rw [hasAuthority, Bool.or_eq_true] at h ⊢
  rw [settled, isEmpty_settledHost] at h
  refine h.imp_right fun hsome ↦ ?_
  obtain ⟨number, hnumber⟩ := Option.isSome_iff_exists.1 hsome
  rw [Option.eq_some_of_filter_eq_some hnumber]
  rfl

theorem hasAuthority_settled (h : url.scheme = []) : url.settled.hasAuthority = url.hasAuthority := by
  rw [hasAuthority, hasAuthority, settled, isEmpty_settledHost, h, settledPort_nil]

theorem IsRead.checkPath_settled (h : url.IsRead) :
    checkPath (!url.scheme.isEmpty) url.settled.hasAuthority url.path = .ok () := by
  have hpath := h.allowed
  cases hscheme : url.scheme with
  | nil =>
    rw [hscheme] at hpath
    rw [hasAuthority_settled hscheme]
    exact hpath
  | cons c rest =>
    -- The authority may be gone with the port, but behind a scheme any path will do.
    cases hauthority : url.settled.hasAuthority with
    | true =>
      rw [hasAuthority_of_settled hauthority] at hpath
      exact checkPath_true_iff.2 (checkPath_true_iff.1 hpath)
    | false => rfl

theorem IsRead.readPath_settled (h : url.IsRead) :
    readPath (!url.scheme.isEmpty) url.settled.hasAuthority url.path = url.path := by
  refine readPath_eq_self h.path fun hsome ↦ h.resolved ?_
  rw [Bool.or_eq_true] at hsome ⊢
  exact hsome.imp_right hasAuthority_of_settled

/-- Reading an address again leaves it settled, whatever query it gets. -/
theorem IsRead.ofWritten_written (h : url.IsRead) (query : Option (List Char)) :
    ofWritten (url.written query) =
      .ok { url.settled with query := query.map (percentEncode isQuerySafe) } := by
  have hsplit : splitHost (url.written query).authority =
      (url.userinfo, hostText url.host, (portText url.port).drop 1) := by
    rw [written, authority_eq, h.host.splitHost_append]
  have hallowed := h.checkPath_settled
  have hpath := h.readPath_settled
  have hfragment : url.fragment.map (percentEncode isFragmentSafe) = url.fragment := by
    cases hurl : url.fragment with
    | none => rfl
    | some s => exact congrArg some (percentEncode_eq_self (h.fragment s hurl))
  rw [ofWritten, hsplit]
  dsimp only [written]
  rw [percentEncode_eq_self h.userinfo, h.host.readHost_hostText, readPort_portText _ h.port]
  rw [hasAuthority, settled] at hallowed hpath
  dsimp only [bind, Except.bind]
  rw [hallowed]
  dsimp only
  rw [← readPath, hpath, h.scheme, hfragment]
  rfl

theorem IsRead.settled (h : url.IsRead) (query : Option (List Char)) :
    IsRead { url.settled with query := query.map (percentEncode isQuerySafe) } :=
  isRead_of_ofWritten (h.ofWritten_written query)

/-! ## Lengths -/

/-- No part of an address but its query is too long. -/
structure Fits (url : Url) : Prop where
  scheme : url.scheme.length ≤ lengthLimit
  authority : url.authority.length ≤ lengthLimit
  path : url.path.length ≤ lengthLimit
  fragment : ∀ s ∈ url.fragment, s.length ≤ lengthLimit

theorem fits_of_checkLengths {query : Option (List Char)}
    (h : checkLengths (url.written query) = .ok ()) : url.Fits := by
  simp only [checkLengths] at h
  split at h
  case h_1 => cases h
  case h_2 hnone =>
    simp only [written, List.find?_eq_none, List.forall_mem_cons, Option.any_some,
      decide_eq_true_eq, Nat.not_lt] at hnone
    obtain ⟨hscheme, hauthority, hpath, -, hfragment, -⟩ := hnone
    refine ⟨hscheme, hauthority, hpath, fun s hs ↦ ?_⟩
    rw [hs] at hfragment
    simpa using hfragment

theorem Fits.checkLengths_written (h : url.Fits) (query : Option (List Char)) :
    checkLengths (url.written query) =
      if lengthLimit < (query.getD []).length then .error (.partTooLong "query") else .ok () := by
  have hfragment : (url.fragment.any fun s ↦ decide (lengthLimit < s.length)) = false := by
    rw [← Bool.not_eq_true, Option.any_eq_true]
    rintro ⟨s, hs, hlong⟩
    exact Nat.not_lt.2 (h.fragment s hs) (of_decide_eq_true hlong)
  have hquery : (query.any fun s ↦ decide (lengthLimit < s.length)) =
      decide (lengthLimit < (query.getD []).length) := by
    cases query with
    | none => rfl
    | some s => rfl
  simp only [checkLengths, written, List.find?_cons, Option.any_some, hquery, hfragment,
    decide_eq_false (Nat.not_lt.2 h.scheme), decide_eq_false (Nat.not_lt.2 h.authority),
    decide_eq_false (Nat.not_lt.2 h.path), List.find?_nil]
  by_cases hlong : lengthLimit < (query.getD []).length
  · rw [if_pos hlong, decide_eq_true hlong]
  · rw [if_neg hlong, decide_eq_false hlong]

theorem length_portText_settledPort_le (scheme : List Char) (port : Option Int) :
    (portText (settledPort scheme port)).length ≤ (portText port).length := by
  cases port with
  | none => exact Nat.le_refl _
  | some number =>
    rw [settledPort, Option.filter_some]
    split
    · exact Nat.le_refl _
    · exact Nat.zero_le _

/-- A settled address is not longer. -/
theorem Fits.settled (h : url.Fits) : url.settled.Fits := by
  refine ⟨h.scheme, Nat.le_trans ?_ h.authority, h.path, h.fragment⟩
  rw [authority_eq, authority_eq, Url.settled]
  dsimp only
  rw [List.length_append, List.length_append, List.length_append, List.length_append,
    length_hostText_settledHost]
  have hport := length_portText_settledPort_le url.scheme url.port
  omega

/-- An address gets any other query that is not too long. -/
theorem IsRead.withQuery_eq (h : url.IsRead) (hfits : url.Fits) (query : Option (List Char)) :
    url.withQuery query =
      if lengthLimit < (query.getD []).length then .error (.partTooLong "query")
      else .ok { url.settled with query := query.map (percentEncode isQuerySafe) } := by
  rw [withQuery]
  dsimp only
  rw [hfits.checkLengths_written]
  split
  case isTrue => rfl
  case isFalse => exact h.ofWritten_written query

end KeyTree.Url
