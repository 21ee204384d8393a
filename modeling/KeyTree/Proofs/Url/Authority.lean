import KeyTree.Proofs.Number.Whole
import KeyTree.Proofs.Text.Fields
import KeyTree.Proofs.Url.Percent
import KeyTree.Url.Basic

/-!
# Authorities read back

Userinfo, host and port are found again in the authority that is made of them. A named host is then
brought into lower case once more, since what was encoded in it has letters in upper case.
-/

namespace KeyTree.Url

/-! ## The last mark -/

variable {mark : Char}

theorem cutLast?_append {after : List Char} (h : mark ∉ after) (before : List Char) :
    cutLast? mark (before ++ mark :: after) = some (before, after) := by
  have hreverse : (before ++ mark :: after).reverse = after.reverse ++ mark :: before.reverse := by
    rw [List.reverse_append, List.reverse_cons, List.append_assoc, List.singleton_append]
  have hafter : mark ∉ after.reverse := fun hmem ↦ h (List.mem_reverse.1 hmem)
  rw [cutLast?, hreverse, Text.cut?_append hafter, Option.map_some]
  dsimp only
  rw [List.reverse_reverse, List.reverse_reverse]

theorem cutLast?_eq_none_iff {s : List Char} : cutLast? mark s = none ↔ mark ∉ s := by
  rw [cutLast?, Option.map_eq_none_iff, Text.cut?_eq_none_iff, List.mem_reverse]

/-- A text is cut at its last mark, and nothing is lost. -/
theorem eq_append_of_cutLast? {s before after : List Char}
    (h : cutLast? mark s = some (before, after)) :
    s = before ++ mark :: after ∧ mark ∉ after := by
  obtain ⟨⟨first, rest⟩, hcut, heq⟩ := Option.map_eq_some_iff.1 h
  obtain ⟨rfl, rfl⟩ := Prod.mk.inj heq
  obtain ⟨hs, hfirst⟩ := Text.eq_append_of_cut? hcut
  constructor
  · rw [← List.reverse_reverse s, hs, List.reverse_append, List.reverse_cons, List.append_assoc,
      List.singleton_append]
  · exact fun hmem ↦ hfirst (List.mem_reverse.1 hmem)

/-! ## Characters of hosts -/

/-- A character that a named host may have. -/
def isHostChar : Char → Bool := isEncoded isHostSafe

theorem isHostChar_of_isAlphanum {c : Char} (h : c.isAlphanum = true) : isHostChar c = true := by
  rw [isHostChar, isEncoded, isUnreserved, h]
  rfl

theorem lt_of_isHostChar {c : Char} (h : isHostChar c = true) : c.toNat < 128 := by
  rw [isHostChar, isEncoded, Bool.or_eq_true] at h
  rcases h with h | h
  · simp only [isUnreserved, Char.isAlphanum, Char.isAlpha, Char.isUpper, Char.isLower,
      Char.isDigit, ge_iff_le, UInt32.le_iff_toNat_le, Bool.or_eq_true, Bool.and_eq_true,
      decide_eq_true_eq, beq_iff_eq] at h
    rcases h with (((((h | h) | h) | rfl) | rfl) | rfl) | rfl
    · exact Nat.lt_of_le_of_lt h.2 (by decide)
    · exact Nat.lt_of_le_of_lt h.2 (by decide)
    · exact Nat.lt_of_le_of_lt h.2 (by decide)
    all_goals decide
  · have hascii {chars : List Char} (hall : (chars.all fun c ↦ decide (c.toNat < 128)) = true)
        (hmem : chars.contains c = true) : c.toNat < 128 :=
      of_decide_eq_true (List.all_eq_true.1 hall c (List.contains_iff_mem.1 hmem))
    exact hascii (by decide) h

theorem isAlphanum_toLower {c : Char} (h : c.isUpper = true) : c.toLower.isAlphanum = true := by
  rw [Char.isAlphanum, Char.isAlpha_toLower_eq_isAlpha, Char.isAlpha, h, Bool.true_or, Bool.true_or]

theorem isHostChar_toLower {c : Char} (h : isHostChar c = true) : isHostChar c.toLower = true := by
  by_cases hupper : c.isUpper = true
  · exact isHostChar_of_isAlphanum (isAlphanum_toLower hupper)
  · rw [Char.toLower_eq_of_not_isUpper hupper]
    exact h

/-- What is no letter in lower case was none before. -/
theorem eq_of_toLower_eq {c d : Char} (hd : d.isAlphanum = false) (h : c.toLower = d) : c = d := by
  by_cases hupper : c.isUpper = true
  · rw [← h, isAlphanum_toLower hupper] at hd
    cases hd
  · rw [← h, Char.toLower_eq_of_not_isUpper hupper]

theorem mem_map_toLower {s : List Char} {d : Char} (hd : d.isAlphanum = false) :
    d ∈ s.map Char.toLower ↔ d ∈ s := by
  constructor
  · intro h
    obtain ⟨c, hc, heq⟩ := List.mem_map.1 h
    rw [← eq_of_toLower_eq hd heq]
    exact hc
  · intro h
    have hupper : ¬d.isUpper = true := by
      intro hupper
      rw [Char.isAlphanum, Char.isAlpha, hupper] at hd
      cases hd
    exact List.mem_map.2 ⟨d, h, Char.toLower_eq_of_not_isUpper hupper⟩

/-! ## Short addresses -/

theorem eq_or_isDigit_of_looksLikeV4 {host : List Char} (h : looksLikeV4 host = true) {c : Char}
    (hc : c ∈ host) : c = '.' ∨ c.isDigit = true := by
  refine (Text.eq_or_mem_of_mem hc).imp_right fun ⟨run, hrun, hmem⟩ ↦ ?_
  have hall := List.all_eq_true.1 ((Bool.and_eq_true _ _).mp h).2 run hrun
  rw [← Text.isPlainDigit_eq_isDigit]
  exact List.all_eq_true.1 ((Bool.and_eq_true _ _).mp hall).2 c hmem

theorem isHostChar_of_looksLikeV4 {host : List Char} (h : looksLikeV4 host = true) {c : Char}
    (hc : c ∈ host) : isHostChar c = true := by
  rcases eq_or_isDigit_of_looksLikeV4 h hc with rfl | hdigit
  · decide
  · exact isHostChar_of_isAlphanum (by rw [Char.isAlphanum, hdigit, Bool.or_true])

theorem not_isAlpha_of_looksLikeV4 {host : List Char} (h : looksLikeV4 host = true) {c : Char}
    (hc : c ∈ host) : c.isAlpha = false := by
  rcases eq_or_isDigit_of_looksLikeV4 h hc with rfl | hdigit
  · decide
  · simp only [Char.isDigit, ge_iff_le, UInt32.le_iff_toNat_le, Bool.and_eq_true,
      decide_eq_true_eq] at hdigit
    have hlt : c.val.toNat < 65 := Nat.lt_of_le_of_lt hdigit.2 (by decide)
    rw [← Bool.not_eq_true]
    simp only [Char.isAlpha, Char.isUpper, Char.isLower, ge_iff_le, UInt32.le_iff_toNat_le,
      Bool.or_eq_true, Bool.and_eq_true, decide_eq_true_eq]
    rintro (⟨hle, -⟩ | ⟨hle, -⟩)
    · exact Nat.not_le.2 hlt hle
    · exact Nat.not_le.2 (Nat.lt_trans hlt (by decide)) hle

theorem map_toLower_eq_self {s : List Char} (h : ∀ c ∈ s, c.isAlpha = false) :
    s.map Char.toLower = s := by
  refine (List.map_congr_left fun c hc ↦ ?_).trans (List.map_id s)
  refine Char.toLower_eq_of_not_isUpper fun hupper ↦ ?_
  have halpha := h c hc
  rw [Char.isAlpha, hupper] at halpha
  cases halpha

/-- A text that looks like a short address in lower case does so anyway. -/
theorem map_toLower_of_looksLikeV4 {s : List Char} (h : looksLikeV4 (s.map Char.toLower) = true) :
    s.map Char.toLower = s := by
  apply map_toLower_eq_self
  intro c hc
  rw [← Char.isAlpha_toLower_eq_isAlpha]
  exact not_isAlpha_of_looksLikeV4 h (List.mem_map_of_mem hc)

theorem not_looksLikeV4 {c : Char} (hc : c ≠ '.') (hdigit : c.isDigit = false) {s : List Char}
    (hmem : c ∈ s) : looksLikeV4 s = false := by
  rw [← Bool.not_eq_true]
  intro h
  rcases eq_or_isDigit_of_looksLikeV4 h hmem with heq | h
  · exact hc heq
  · rw [hdigit] at h
    cases h

/-! ## Long addresses -/

/-- An address without a colon has too few groups. -/
theorem mem_of_isV6 {host : List Char} (h : isV6 host = true) : ':' ∈ host := by
  by_contra hcolon
  have hgroups {address : List Char} (haddress : ':' ∉ address) : groups? address = none := by
    rw [groups?, Text.fieldList, Text.fields_of_not_mem haddress]
    exact if_pos (by rw [List.length_singleton]; decide)
  rw [isV6] at h
  cases hcut : Text.cut? '%' host with
  | none =>
    simp only [hcut, hgroups hcolon, Bool.and_false] at h
    cases h
  | some parts =>
    obtain ⟨address, zone⟩ := parts
    have haddress : ':' ∉ address := by
      intro hmem
      rw [(Text.eq_append_of_cut? hcut).1] at hcolon
      exact hcolon (List.mem_append_left _ hmem)
    simp only [hcut, hgroups haddress, Bool.and_false] at h
    cases h

/-! ## Hosts -/

/-- A host that was read: an address that stands in brackets, or a name. -/
inductive IsHost : List Char → Prop
  | long {host : List Char} (v6 : isV6 host = true) (inside : '@' ∉ host) : IsHost host
  | name {host : List Char} (chars : ∀ c ∈ host, isHostChar c = true)
      (short : looksLikeV4 host = true → isV4 host = true) : IsHost host

theorem isHost_of_readHost {s host : List Char} (hinside : '@' ∉ s) (h : readHost s = .ok host) :
    IsHost host := by
  simp only [readHost] at h
  split at h
  case isTrue =>
    obtain rfl := Except.ok.inj h
    exact .name (List.forall_mem_nil _) (by decide)
  case isFalse =>
    split at h
    case isTrue hlooks =>
      split at h
      case isTrue hshort =>
        obtain rfl := Except.ok.inj h
        exact .name (fun _ ↦ isHostChar_of_looksLikeV4 hlooks) fun _ ↦ hshort
      case isFalse => cases h
    case isFalse hlooks =>
      split at h
      case isTrue =>
        split at h
        case isTrue hlong =>
          obtain rfl := Except.ok.inj h
          exact .long hlong fun hmem ↦
            hinside (List.mem_of_mem_drop (List.mem_of_mem_dropLast hmem))
        case isFalse => cases h
      case isFalse =>
        split at h
        case isTrue =>
          obtain rfl := Except.ok.inj h
          -- What was encoded has a percent sign, so a name that looks like a short address in the
          -- end was written as one, and would have been read as one before.
          refine .name (fun _ ↦ isEncoded_of_mem_percentEncode rfl) fun hshort ↦ ?_
          have hpercent : '%' ∉ percentEncode isHostSafe (s.map Char.toLower) := by
            intro hmem
            rw [not_looksLikeV4 (by decide) (by decide) hmem] at hshort
            cases hshort
          rw [percentEncode_of_not_mem hpercent] at hshort
          rw [map_toLower_of_looksLikeV4 hshort] at hshort
          exact absurd hshort hlooks
        case isFalse => cases h

/-- A host as it stands in an authority, in brackets if there are colons in it. -/
def hostText (host : List Char) : List Char :=
  if host.contains ':' then '[' :: host ++ [']'] else host

/-- A host as it is when it is read again. -/
def settledHost (host : List Char) : List Char :=
  if host.contains ':' then host else host.map Char.toLower

theorem hostText_of_mem {host : List Char} (h : ':' ∈ host) :
    hostText host = '[' :: host ++ [']'] :=
  if_pos (List.contains_iff_mem.2 h)

theorem hostText_of_not_mem {host : List Char} (h : ':' ∉ host) : hostText host = host :=
  if_neg fun hmem ↦ h (List.contains_iff_mem.1 hmem)

theorem settledHost_of_mem {host : List Char} (h : ':' ∈ host) : settledHost host = host :=
  if_pos (List.contains_iff_mem.2 h)

theorem settledHost_of_not_mem {host : List Char} (h : ':' ∉ host) :
    settledHost host = host.map Char.toLower :=
  if_neg fun hmem ↦ h (List.contains_iff_mem.1 hmem)

theorem mem_settledHost {host : List Char} : ':' ∈ settledHost host ↔ ':' ∈ host := by
  rw [settledHost]
  split
  · exact Iff.rfl
  · exact mem_map_toLower (by decide)

theorem settledHost_settledHost (host : List Char) :
    settledHost (settledHost host) = settledHost host := by
  by_cases h : ':' ∈ host
  · exact settledHost_of_mem (mem_settledHost.2 h)
  · rw [settledHost_of_not_mem (mt mem_settledHost.1 h), settledHost_of_not_mem h, List.map_map]
    exact List.map_congr_left fun c _ ↦ Char.toLower_toLower_eq_toLower c

theorem length_hostText_settledHost (host : List Char) :
    (hostText (settledHost host)).length = (hostText host).length := by
  by_cases h : ':' ∈ host
  · rw [settledHost_of_mem h]
  · rw [hostText_of_not_mem (mt mem_settledHost.1 h), settledHost_of_not_mem h,
      hostText_of_not_mem h, List.length_map]

theorem readHost_long {host : List Char} (h : isV6 host = true) :
    readHost ('[' :: host ++ [']']) = .ok host := by
  have hlooks : looksLikeV4 ('[' :: host ++ [']']) = false :=
    not_looksLikeV4 (by decide) (by decide) List.mem_cons_self
  have hlast : ('[' :: host ++ [']']).getLast? = some ']' := List.getLast?_concat
  have hlength : 2 ≤ ('[' :: host ++ [']']).length := by
    rw [List.length_append, List.length_cons, List.length_singleton]
    omega
  have hinside : (('[' :: host ++ [']']).drop 1).dropLast = host := List.dropLast_concat
  simp only [readHost, hlooks, hlast, hlength, hinside, h]
  rfl

theorem readHost_name {host : List Char} (hchars : ∀ c ∈ host, isHostChar c = true)
    (hshort : looksLikeV4 host = true → isV4 host = true) :
    readHost host = .ok (host.map Char.toLower) := by
  simp only [readHost]
  split
  case isTrue hempty =>
    rw [List.isEmpty_iff.1 hempty]
    rfl
  case isFalse =>
    split
    case isTrue hlooks =>
      rw [if_pos (hshort hlooks), map_toLower_eq_self fun _ ↦ not_isAlpha_of_looksLikeV4 hlooks]
    case isFalse =>
      have hhead : (host.head? == some '[') = false := by
        rw [← Bool.not_eq_true, beq_iff_eq]
        intro hhead
        exact Text.not_mem_of_forall hchars (by decide) (List.mem_of_mem_head? hhead)
      have hascii : (host.all fun c ↦ c.toNat < 128) = true :=
        List.all_eq_true.2 fun c hc ↦ decide_eq_true (lt_of_isHostChar (hchars c hc))
      have hencoded : percentEncode isHostSafe (host.map Char.toLower) = host.map Char.toLower := by
        refine percentEncode_eq_self fun c hc ↦ ?_
        obtain ⟨d, hd, rfl⟩ := List.mem_map.1 hc
        exact isHostChar_toLower (hchars d hd)
      rw [hhead, Bool.false_and, Bool.false_and, if_neg Bool.false_ne_true, if_pos hascii, hencoded]

/-- A host is read from its text. -/
theorem IsHost.readHost_hostText {host : List Char} (h : IsHost host) :
    readHost (hostText host) = .ok (settledHost host) := by
  cases h with
  | long hlong =>
    rw [hostText_of_mem (mem_of_isV6 hlong), settledHost_of_mem (mem_of_isV6 hlong),
      readHost_long hlong]
  | name hchars hshort =>
    have hcolon := Text.not_mem_of_forall hchars (d := ':') (by decide)
    rw [hostText_of_not_mem hcolon, settledHost_of_not_mem hcolon, readHost_name hchars hshort]

theorem IsHost.not_mem_hostText {host : List Char} (h : IsHost host) : '@' ∉ hostText host := by
  cases h with
  | long hlong hinside =>
    rw [hostText_of_mem (mem_of_isV6 hlong), List.mem_append, List.mem_cons, List.mem_singleton]
    rintro ((h | h) | h)
    · exact absurd h (by decide)
    · exact hinside h
    · exact absurd h (by decide)
  | name hchars _ =>
    rw [hostText_of_not_mem (Text.not_mem_of_forall hchars (by decide))]
    exact Text.not_mem_of_forall hchars (by decide)

/-! ## Ports -/

/-- What stands behind a host. -/
def portText (port : Option Int) : List Char :=
  port.elim [] fun number ↦ ':' :: (toString number).toList

/-- A port as it is when it is read again. -/
def settledPort (scheme : List Char) (port : Option Int) : Option Int :=
  port.filter fun number ↦ Ordered.get? (String.ofList scheme) defaultPorts != some number

/-- A character that may stand behind a host. -/
def isPortChar (c : Char) : Bool := c == ':' || c == '-' || c.isDigit

theorem isPortChar_of_mem_portText {port : Option Int} {c : Char} (h : c ∈ portText port) :
    isPortChar c = true := by
  cases port with
  | none => cases h
  | some number =>
    rcases List.mem_cons.1 h with rfl | h
    · decide
    · rcases Text.eq_minus_or_of_mem_toString h with rfl | hplain
      · decide
      · rw [Text.isPlainDigit_eq_isDigit] at hplain
        rw [isPortChar, hplain, Bool.or_true]

theorem not_mem_portText (port : Option Int) {d : Char} (hd : isPortChar d = false) :
    d ∉ portText port :=
  Text.not_mem_of_forall (fun _ ↦ isPortChar_of_mem_portText) hd

theorem natAbs_lt_of_readPort {scheme text : List Char} {port : Option Int}
    (h : readPort scheme text = .ok port) :
    ∀ number ∈ port, number.natAbs < 10 ^ TooManyDigits.limit := by
  rintro number rfl
  rw [readPort] at h
  split at h
  · cases h
  · split at h
    case h_1 => cases h
    case h_2 read hread =>
      have hnumber := Except.ok.inj h
      split at hnumber
      · cases hnumber
      · rw [← Option.some.inj hnumber]
        exact Whole.natAbs_lt_of_signed? hread

/-- A port is read from its text. -/
theorem readPort_portText (scheme : List Char) {port : Option Int}
    (h : ∀ number ∈ port, number.natAbs < 10 ^ TooManyDigits.limit) :
    readPort scheme ((portText port).drop 1) = .ok (settledPort scheme port) := by
  cases port with
  | none => rfl
  | some number =>
    have hread := Whole.signed?_toString (h number rfl)
    have hsome : ¬(toString number).toList.isEmpty = true := by
      intro hempty
      rw [List.isEmpty_iff.1 hempty] at hread
      cases hread
    have hdrop : (portText (some number)).drop 1 = (toString number).toList := rfl
    rw [hdrop, readPort, if_neg hsome]
    simp only [hread, settledPort, Option.filter_some]
    cases hdefault : Ordered.get? (String.ofList scheme) defaultPorts == some number with
    | true => simp only [bne, hdefault]; rfl
    | false => simp only [bne, hdefault]; rfl

theorem settledPort_settledPort (scheme : List Char) (port : Option Int) :
    settledPort scheme (settledPort scheme port) = settledPort scheme port := by
  rw [settledPort, settledPort, Option.filter_filter]
  simp only [Bool.and_self]

/-! ## Authorities -/

theorem authority_eq (url : Url) :
    url.authority =
      (if url.userinfo.isEmpty then [] else url.userinfo ++ ['@']) ++
        (hostText url.host ++ portText url.port) := by
  rw [authority, List.append_assoc]
  cases url.port with
  | none => rfl
  | some number => rfl

/-- What stands behind the last at sign has no other. -/
theorem not_mem_splitHost (authority : List Char) : '@' ∉ (splitHost authority).2.1 := by
  have hbehind : '@' ∉ ((cutLast? '@' authority).getD ([], authority)).2 := by
    cases hcut : cutLast? '@' authority with
    | none => exact cutLast?_eq_none_iff.1 hcut
    | some parts => exact (eq_append_of_cutLast? hcut).2
  rw [splitHost]
  generalize (cutLast? '@' authority).getD ([], authority) = parts at hbehind
  dsimp only
  split
  case h_1 inside rest _ hcut =>
    rw [(eq_append_of_cutLast? hcut).1] at hbehind
    intro hmem
    rcases List.mem_append.1 hmem with hmem | hmem
    · exact hbehind (List.mem_append_left _ hmem)
    · exact absurd (List.mem_singleton.1 hmem) (by decide)
  case h_2 => exact fun hmem ↦ hbehind ((List.takeWhile_prefix _).mem hmem)

theorem cutLast?_userinfo {userinfo rest : List Char} (hrest : '@' ∉ rest) :
    (cutLast? '@' ((if userinfo.isEmpty then [] else userinfo ++ ['@']) ++ rest)).getD
      ([], (if userinfo.isEmpty then [] else userinfo ++ ['@']) ++ rest) = (userinfo, rest) := by
  by_cases hempty : userinfo.isEmpty = true
  · rw [if_pos hempty, List.nil_append, cutLast?_eq_none_iff.2 hrest, List.isEmpty_iff.1 hempty]
    rfl
  · rw [if_neg hempty, List.append_assoc, List.singleton_append, cutLast?_append hrest]
    rfl

/-- Userinfo, host and port are told apart again. -/
theorem IsHost.splitHost_append {userinfo host : List Char} (h : IsHost host) (port : Option Int) :
    splitHost ((if userinfo.isEmpty then [] else userinfo ++ ['@']) ++
        (hostText host ++ portText port)) =
      (userinfo, hostText host, (portText port).drop 1) := by
  have hrest : '@' ∉ hostText host ++ portText port := by
    rw [List.mem_append, not_or]
    exact ⟨h.not_mem_hostText, not_mem_portText port (by decide)⟩
  have hport : (if ((portText port).head? == some ':') = true then (portText port).drop 1
      else portText port) = (portText port).drop 1 := by
    cases port with
    | none => rfl
    | some number => rfl
  rw [splitHost, cutLast?_userinfo hrest]
  dsimp only
  cases h with
  | long hlong hinside =>
    have hbracket : ']' ∉ portText port := not_mem_portText port (by decide)
    have hcut : cutLast? ']' ('[' :: host ++ [']'] ++ portText port) =
        some ('[' :: host, portText port) := by
      rw [List.append_assoc, List.singleton_append, cutLast?_append hbracket]
    have hhead : (('[' :: host ++ [']'] ++ portText port).head? == some '[') = true := rfl
    simp only [hostText_of_mem (mem_of_isV6 hlong), hhead, hcut, hport]
  | name hchars _ =>
    have hcolon := Text.not_mem_of_forall hchars (d := ':') (by decide)
    have hat := Text.not_mem_of_forall hchars (d := '@') (by decide)
    have hhead : ((host ++ portText port).head? == some '[') = false := by
      rw [← Bool.not_eq_true, beq_iff_eq]
      intro hhead
      rcases List.mem_append.1 (List.mem_of_mem_head? hhead) with hmem | hmem
      · exact Text.not_mem_of_forall hchars (by decide) hmem
      · exact not_mem_portText port (by decide) hmem
    have hinside : ∀ c ∈ host, (c != ':' && c != '@') = true := by
      intro c hc
      rw [Bool.and_eq_true, bne_iff_ne, bne_iff_ne]
      exact ⟨fun heq ↦ hcolon (heq ▸ hc), fun heq ↦ hat (heq ▸ hc)⟩
    have hafter : ∀ c ∈ (portText port).head?, (c != ':' && c != '@') = false := by
      cases port with
      | none => exact fun _ hc ↦ nomatch hc
      | some number =>
        intro c hc
        obtain rfl := Option.some.inj hc
        rfl
    obtain ⟨htake, hdrop⟩ := Text.takeWhile_append_of_head hinside hafter
    simp only [hostText_of_not_mem hcolon, hhead, htake, hdrop, hport]

end KeyTree.Url
