import Mathlib
import UltraNoteCore.Prelude.MultiIndex

/-!
# The peer lists of the node

`PeerlistManager` (`PeerListManager.cpp`) keeps two lists of peers: the white list of peers
the node has talked to and the gray list of peers other nodes told it about. Each is a
`peers_indexed` container: a unique index on the address and a non-unique ordered index on
`last_seen`, here a `RankedList` in the order of its time index. Appending a peer to the white
list takes it off the gray list; a peer already white is never appended to the gray list; every
insertion is followed by trimming the list to its limit, which erases the least recently seen
entries first; and only addresses that pass `is_ip_allowed` are taken.

`get_peerlist_head` walks the white list from the most recent entry down, skips the entries
never seen, and stops after the entry at which its counter, read before the increment, exceeds
`depth`: it appends `depth + 2` entries when there are that many, not `depth`.

## Main definitions

* `NetworkAddress`, `PeerlistEntry`, `peers_indexed`, `PeerlistManager`
* `hostToNetwork`, `Ipv4Address.isLoopback`, `Ipv4Address.isPrivate`,
  `PeerlistManager.is_ip_allowed`
* `Peerlist.trim`, `Peerlist.get`, `PeerlistManager.append_with_peer_white`,
  `PeerlistManager.append_with_peer_gray`, `PeerlistManager.merge_peerlist`,
  `PeerlistManager.set_peer_just_seen`, `PeerlistManager.get_peerlist_head`,
  `PeerlistManager.get_peerlist_full`
* `PeerlistOp`, `PeerlistManager.run`: runs of the operations that change the lists
* `PeerlistManager.Invariant`, `PeerlistHead`: what a run keeps, and what the head is

## Main results

* `PeerlistManager.Invariant.apply`, `PeerlistManager.invariant_run`: every run from empty
  lists keeps the lists disjoint, allowed and within their limits
* `PeerlistManager.get_peerlist_head_eq`: the head is the first `depth + 2` seen entries,
  most recent first
* `PeerlistManager.peerlistHead_take`: such a prefix is a head of the list
-/

namespace UltraNoteCore

/-- `NetworkAddress`: an IPv4 address in network byte order and a port. -/
structure NetworkAddress where
  ip : UInt32
  port : UInt32
deriving DecidableEq, Repr

/-- `PeerIdType`. -/
abbrev PeerIdType := UInt64

/-- `PeerlistEntry`. -/
structure PeerlistEntry where
  adr : NetworkAddress
  id : PeerIdType
  last_seen : UInt64
deriving DecidableEq, Repr

/-- `P2P_LOCAL_WHITE_PEERLIST_LIMIT`. -/
def P2P_LOCAL_WHITE_PEERLIST_LIMIT : ℕ := 1000
/-- `P2P_LOCAL_GRAY_PEERLIST_LIMIT`. -/
def P2P_LOCAL_GRAY_PEERLIST_LIMIT : ℕ := 5000
/-- `P2P_DEFAULT_PEERS_IN_HANDSHAKE`, the default `depth` of `get_peerlist_head`. -/
def P2P_DEFAULT_PEERS_IN_HANDSHAKE : UInt32 := 250

/-- `hostToNetwork`: the bytes of a word reversed. -/
def hostToNetwork (n : UInt32) : UInt32 :=
  (n <<< (24 : UInt32)) ||| ((n &&& (0xff00 : UInt32)) <<< (8 : UInt32)) |||
    ((n &&& (0xff0000 : UInt32)) >>> (8 : UInt32)) ||| (n >>> (24 : UInt32))

/-- `networkToHost`, the same reversal. -/
def networkToHost (n : UInt32) : UInt32 := hostToNetwork n

namespace Ipv4Address

/-- `Ipv4Address::isLoopback`: `127.0.0.0/8`. -/
def isLoopback (value : UInt32) : Bool :=
  (value &&& (0xff000000 : UInt32)) == (127 : UInt32) <<< (24 : UInt32)

/-- `Ipv4Address::isPrivate`: `10.0.0.0/8`, `172.16.0.0/12` and `192.168.0.0/16`. -/
def isPrivate (value : UInt32) : Bool :=
  (value &&& (0xff000000 : UInt32)) == (10 : UInt32) <<< (24 : UInt32) ||
    (value &&& (0xfff00000 : UInt32)) ==
      (((172 : UInt32) <<< (24 : UInt32)) ||| ((16 : UInt32) <<< (16 : UInt32))) ||
    (value &&& (0xffff0000 : UInt32)) ==
      (((192 : UInt32) <<< (24 : UInt32)) ||| ((168 : UInt32) <<< (16 : UInt32)))

end Ipv4Address

/-- `peers_indexed`: the entries in the order of the `by_time` index, with a unique `by_addr`
index. -/
abbrev peers_indexed := RankedList PeerlistEntry PeerlistEntry.adr fun e => e.last_seen.toNat

/-- The state of a `PeerlistManager`; `m_config_folder` is not read by the modelled functions. -/
structure PeerlistManager where
  m_allow_local_ip : Bool
  m_peers_white : peers_indexed
  m_peers_gray : peers_indexed

namespace Peerlist

/-- The loop of `Peerlist::trim`: while more than `m_maxSize` entries are left, the first of
the time index is erased. Each round erases one, so `fuel` rounds for `fuel` entries suffice. -/
def trimLoop (m_maxSize : ℕ) : ℕ → peers_indexed → peers_indexed
  | 0, m_peers => m_peers
  | fuel + 1, m_peers =>
    if m_maxSize < m_peers.items.length then trimLoop m_maxSize fuel m_peers.eraseFirst
    else m_peers

/-- `Peerlist::trim`. -/
def trim (m_maxSize : ℕ) (m_peers : peers_indexed) : peers_indexed :=
  trimLoop m_maxSize m_peers.items.length m_peers

/-- `Peerlist::get`: the `i`-th entry from the end of the time index. -/
def get (m_peers : peers_indexed) (i : ℕ) : Option PeerlistEntry :=
  m_peers.items.reverse[i]?

end Peerlist

namespace PeerlistManager

/-- A constructed manager after `init(allow_local_ip)`: both lists empty. -/
def init (allow_local_ip : Bool) : PeerlistManager :=
  ⟨allow_local_ip, .empty, .empty⟩

/-- `PeerlistManager::is_ip_allowed`: never a loopback address, and a private one only when
local addresses are allowed. -/
def is_ip_allowed (pm : PeerlistManager) (ip : UInt32) : Bool :=
  let addr := networkToHost ip
  if Ipv4Address.isLoopback addr then false
  else if !pm.m_allow_local_ip && Ipv4Address.isPrivate addr then false
  else true

/-- `trim_white_peerlist`. -/
def trim_white_peerlist (pm : PeerlistManager) : PeerlistManager :=
  { pm with m_peers_white := Peerlist.trim P2P_LOCAL_WHITE_PEERLIST_LIMIT pm.m_peers_white }

/-- `trim_gray_peerlist`. -/
def trim_gray_peerlist (pm : PeerlistManager) : PeerlistManager :=
  { pm with m_peers_gray := Peerlist.trim P2P_LOCAL_GRAY_PEERLIST_LIMIT pm.m_peers_gray }

/-- `append_with_peer_white`, which returns `true` (the `catch` of an allocation failure is not
modelled): a new address is inserted and the list trimmed, a known one replaced, and the
address is then erased from the gray list. -/
def append_with_peer_white (pm : PeerlistManager) (ple : PeerlistEntry) : PeerlistManager :=
  if !pm.is_ip_allowed ple.adr.ip then pm
  else
    let pm := if (pm.m_peers_white.find? ple.adr).isNone then
        { pm with m_peers_white := pm.m_peers_white.insert ple }.trim_white_peerlist
      else { pm with m_peers_white := pm.m_peers_white.replace ple }
    if (pm.m_peers_gray.find? ple.adr).isSome then
      { pm with m_peers_gray := pm.m_peers_gray.erase ple.adr }
    else pm

/-- `append_with_peer_gray`, which returns `true`: an address on the white list is left alone,
a new one is inserted and the gray list trimmed, a known one replaced. -/
def append_with_peer_gray (pm : PeerlistManager) (ple : PeerlistEntry) : PeerlistManager :=
  if !pm.is_ip_allowed ple.adr.ip then pm
  else if (pm.m_peers_white.find? ple.adr).isSome then pm
  else if (pm.m_peers_gray.find? ple.adr).isNone then
    { pm with m_peers_gray := pm.m_peers_gray.insert ple }.trim_gray_peerlist
  else { pm with m_peers_gray := pm.m_peers_gray.replace ple }

/-- `merge_peerlist`: every entry appended to the gray list, then the list trimmed. -/
def merge_peerlist (pm : PeerlistManager) (outer_bs : List PeerlistEntry) : PeerlistManager :=
  (outer_bs.foldl append_with_peer_gray pm).trim_gray_peerlist

/-- `set_peer_just_seen(peer, addr)`, with `now` for `time(NULL)`. -/
def set_peer_just_seen (pm : PeerlistManager) (peer : PeerIdType) (addr : NetworkAddress)
    (now : UInt64) : PeerlistManager :=
  pm.append_with_peer_white ⟨addr, peer, now⟩

/-- The loop of `get_peerlist_head` over the time index from its end: an entry never seen is
passed over, and after each entry appended the loop stops if the count before its
post-increment, `cnt++ > depth`, exceeds `depth`. -/
def peerlistHeadLoop (depth : UInt32) :
    UInt32 → List PeerlistEntry → List PeerlistEntry → List PeerlistEntry
  | _, bs_head, [] => bs_head
  | cnt, bs_head, vl :: rest =>
    if vl.last_seen = 0 then peerlistHeadLoop depth cnt bs_head rest
    else if cnt > depth then bs_head ++ [vl]
    else peerlistHeadLoop depth (cnt + 1) (bs_head ++ [vl]) rest

/-- `get_peerlist_head(bs_head, depth)`: the list `bs_head` with the head appended. -/
def get_peerlist_head (pm : PeerlistManager) (bs_head : List PeerlistEntry)
    (depth : UInt32 := P2P_DEFAULT_PEERS_IN_HANDSHAKE) : List PeerlistEntry :=
  peerlistHeadLoop depth 0 bs_head pm.m_peers_white.items.reverse

/-- `get_peerlist_full(pl_gray, pl_white)`: both lists appended, most recent first. -/
def get_peerlist_full (pm : PeerlistManager) (pl_gray pl_white : List PeerlistEntry) :
    List PeerlistEntry × List PeerlistEntry :=
  (pl_gray ++ pm.m_peers_gray.items.reverse, pl_white ++ pm.m_peers_white.items.reverse)

/-- `get_white_peer_by_index`. -/
def get_white_peer_by_index (pm : PeerlistManager) (i : ℕ) : Option PeerlistEntry :=
  Peerlist.get pm.m_peers_white i

/-- `get_gray_peer_by_index`. -/
def get_gray_peer_by_index (pm : PeerlistManager) (i : ℕ) : Option PeerlistEntry :=
  Peerlist.get pm.m_peers_gray i

end PeerlistManager

/-- The operations that change the peer lists. -/
inductive PeerlistOp where
  | append_with_peer_white (pr : PeerlistEntry)
  | append_with_peer_gray (pr : PeerlistEntry)
  | merge_peerlist (outer_bs : List PeerlistEntry)
  | set_peer_just_seen (peer : PeerIdType) (addr : NetworkAddress) (now : UInt64)

namespace PeerlistOp

/-- One operation on a manager. -/
def apply : PeerlistOp → PeerlistManager → PeerlistManager
  | append_with_peer_white pr, pm => pm.append_with_peer_white pr
  | append_with_peer_gray pr, pm => pm.append_with_peer_gray pr
  | merge_peerlist outer_bs, pm => pm.merge_peerlist outer_bs
  | set_peer_just_seen peer addr now, pm => pm.set_peer_just_seen peer addr now

end PeerlistOp

namespace PeerlistManager

/-- A run of operations. -/
def run (pm : PeerlistManager) (ops : List PeerlistOp) : PeerlistManager :=
  ops.foldl (fun pm op => op.apply pm) pm

end PeerlistManager

/-! ## Trimming and taking an entry -/

namespace Peerlist

theorem length_trimLoop_le {m_maxSize : ℕ} :
    ∀ {fuel : ℕ} {m_peers : peers_indexed}, m_peers.items.length ≤ fuel →
      (trimLoop m_maxSize fuel m_peers).items.length ≤ m_maxSize
  | 0, m_peers, h => by
    rw [trimLoop]
    omega
  | fuel + 1, m_peers, h => by
    rw [trimLoop]
    split
    · apply length_trimLoop_le
      rw [RankedList.length_eraseFirst]
      omega
    · omega

theorem mem_trimLoop {m_maxSize : ℕ} :
    ∀ {fuel : ℕ} {m_peers : peers_indexed} {e : PeerlistEntry},
      e ∈ (trimLoop m_maxSize fuel m_peers).items → e ∈ m_peers.items
  | 0, _, _, h => h
  | fuel + 1, m_peers, e, h => by
    rw [trimLoop] at h
    split at h
    · exact RankedList.mem_eraseFirst (mem_trimLoop h)
    · exact h

theorem length_trim_le (m_maxSize : ℕ) (m_peers : peers_indexed) :
    (trim m_maxSize m_peers).items.length ≤ m_maxSize :=
  length_trimLoop_le (le_refl _)

theorem mem_trim {m_maxSize : ℕ} {m_peers : peers_indexed} {e : PeerlistEntry}
    (h : e ∈ (trim m_maxSize m_peers).items) : e ∈ m_peers.items :=
  mem_trimLoop h

/-- Both lists take an entry alike: a new address is inserted and the list trimmed, a known one
replaced; either way the entry is the only one added. -/
theorem mem_insertOrReplace {m_peers : peers_indexed} {limit : ℕ} {ple e : PeerlistEntry}
    (h : e ∈ (if (m_peers.find? ple.adr).isNone then trim limit (m_peers.insert ple)
      else m_peers.replace ple).items) : e = ple ∨ e ∈ m_peers.items := by
  split at h
  · exact RankedList.mem_insert (mem_trim h)
  · exact RankedList.mem_replace h

theorem length_insertOrReplace_le {m_peers : peers_indexed} {limit : ℕ} (ple : PeerlistEntry)
    (h : m_peers.items.length ≤ limit) :
    (if (m_peers.find? ple.adr).isNone then trim limit (m_peers.insert ple)
      else m_peers.replace ple).items.length ≤ limit := by
  split
  · exact length_trim_le limit _
  · rwa [RankedList.length_replace]

end Peerlist

namespace PeerlistManager

/-! ## What each operation does -/

theorem adr_ne_of_find?_eq_false {m_peers : peers_indexed} {adr : NetworkAddress}
    (h : (m_peers.find? adr).isSome = false) : ∀ e ∈ m_peers.items, e.adr ≠ adr :=
  fun e he hadr => by
    rw [← Bool.not_eq_true, RankedList.isSome_find?] at h
    exact h ⟨e, he, hadr⟩

theorem append_with_peer_white_of_not_allowed {pm : PeerlistManager} {ple : PeerlistEntry}
    (h : pm.is_ip_allowed ple.adr.ip = false) : pm.append_with_peer_white ple = pm := by
  rw [append_with_peer_white, h, Bool.not_false, if_pos rfl]

/-- `append_with_peer_white` of an allowed address: the white list takes the entry, the gray
list loses its address. -/
theorem append_with_peer_white_of_allowed {pm : PeerlistManager} {ple : PeerlistEntry}
    (h : pm.is_ip_allowed ple.adr.ip = true) :
    pm.append_with_peer_white ple =
      { m_allow_local_ip := pm.m_allow_local_ip
        m_peers_white := if (pm.m_peers_white.find? ple.adr).isNone then
            Peerlist.trim P2P_LOCAL_WHITE_PEERLIST_LIMIT (pm.m_peers_white.insert ple)
          else pm.m_peers_white.replace ple
        m_peers_gray := if (pm.m_peers_gray.find? ple.adr).isSome then
            pm.m_peers_gray.erase ple.adr
          else pm.m_peers_gray } := by
  rw [append_with_peer_white, h, Bool.not_true, if_neg Bool.false_ne_true]
  -- the white list's update leaves the gray list as it was
  by_cases hwhite : (pm.m_peers_white.find? ple.adr).isNone <;>
    by_cases hgray : (pm.m_peers_gray.find? ple.adr).isSome <;>
    simp [hwhite, hgray, trim_white_peerlist]

/-- `append_with_peer_gray` of an allowed address that is not white: the gray list takes the
entry. -/
theorem append_with_peer_gray_of_allowed {pm : PeerlistManager} {ple : PeerlistEntry}
    (h : pm.is_ip_allowed ple.adr.ip = true)
    (hwhite : (pm.m_peers_white.find? ple.adr).isSome = false) :
    pm.append_with_peer_gray ple =
      { pm with m_peers_gray := if (pm.m_peers_gray.find? ple.adr).isNone then
            Peerlist.trim P2P_LOCAL_GRAY_PEERLIST_LIMIT (pm.m_peers_gray.insert ple)
          else pm.m_peers_gray.replace ple } := by
  rw [append_with_peer_gray, h, Bool.not_true, if_neg Bool.false_ne_true, hwhite,
    if_neg Bool.false_ne_true]
  split <;> rfl

/-- Otherwise `append_with_peer_gray` changes nothing. -/
theorem append_with_peer_gray_of_not {pm : PeerlistManager} {ple : PeerlistEntry}
    (h : pm.is_ip_allowed ple.adr.ip = false ∨ (pm.m_peers_white.find? ple.adr).isSome = true) :
    pm.append_with_peer_gray ple = pm := by
  rcases h with h | h
  · rw [append_with_peer_gray, h, Bool.not_false, if_pos rfl]
  · unfold append_with_peer_gray
    simp [h]

/-! ## The invariant of a run -/

/-- What every run from empty lists keeps: no address on both lists, only allowed addresses,
and each list within its limit. -/
structure Invariant (pm : PeerlistManager) : Prop where
  disjoint : ∀ e ∈ pm.m_peers_white.items, ∀ e' ∈ pm.m_peers_gray.items, e.adr ≠ e'.adr
  allowed_white : ∀ e ∈ pm.m_peers_white.items, pm.is_ip_allowed e.adr.ip = true
  allowed_gray : ∀ e ∈ pm.m_peers_gray.items, pm.is_ip_allowed e.adr.ip = true
  white_limit : pm.m_peers_white.items.length ≤ P2P_LOCAL_WHITE_PEERLIST_LIMIT
  gray_limit : pm.m_peers_gray.items.length ≤ P2P_LOCAL_GRAY_PEERLIST_LIMIT

theorem invariant_init (allow_local_ip : Bool) : (init allow_local_ip).Invariant :=
  ⟨nofun, nofun, nofun, Nat.zero_le _, Nat.zero_le _⟩

namespace Invariant

variable {pm : PeerlistManager}

theorem append_with_peer_white (hinv : pm.Invariant) (ple : PeerlistEntry) :
    (pm.append_with_peer_white ple).Invariant := by
  cases hallow : pm.is_ip_allowed ple.adr.ip with
  | false => rwa [append_with_peer_white_of_not_allowed hallow]
  | true =>
    rw [append_with_peer_white_of_allowed hallow]
    -- the gray list keeps only entries of other addresses
    have hgray : ∀ e ∈ (if (pm.m_peers_gray.find? ple.adr).isSome then
        pm.m_peers_gray.erase ple.adr else pm.m_peers_gray).items,
        e ∈ pm.m_peers_gray.items ∧ e.adr ≠ ple.adr := by
      intro e he
      split at he
      · exact RankedList.mem_erase.mp he
      · next hfind =>
        exact ⟨he, adr_ne_of_find?_eq_false (Bool.eq_false_iff.mpr hfind) e he⟩
    refine ⟨fun e he e' he' => ?_, fun e he => ?_, fun e he => hinv.allowed_gray e (hgray e he).1,
      Peerlist.length_insertOrReplace_le ple hinv.white_limit, ?_⟩
    · obtain ⟨he', hadr⟩ := hgray e' he'
      rcases Peerlist.mem_insertOrReplace he with rfl | he
      · exact fun h => hadr h.symm
      · exact hinv.disjoint e he e' he'
    · rcases Peerlist.mem_insertOrReplace he with rfl | he
      · exact hallow
      · exact hinv.allowed_white e he
    · refine le_trans ?_ hinv.gray_limit
      dsimp only
      split
      · exact RankedList.length_erase_le _ _
      · exact le_refl _

theorem append_with_peer_gray (hinv : pm.Invariant) (ple : PeerlistEntry) :
    (pm.append_with_peer_gray ple).Invariant := by
  by_cases hnew : pm.is_ip_allowed ple.adr.ip = true ∧
      (pm.m_peers_white.find? ple.adr).isSome = false
  · obtain ⟨hallow, hwhite⟩ := hnew
    rw [append_with_peer_gray_of_allowed hallow hwhite]
    refine ⟨fun e he e' he' => ?_, hinv.allowed_white, fun e he => ?_,
      hinv.white_limit, Peerlist.length_insertOrReplace_le ple hinv.gray_limit⟩
    · rcases Peerlist.mem_insertOrReplace he' with rfl | he'
      · exact adr_ne_of_find?_eq_false hwhite e he
      · exact hinv.disjoint e he e' he'
    · rcases Peerlist.mem_insertOrReplace he with rfl | he
      · exact hallow
      · exact hinv.allowed_gray e he
  · rw [append_with_peer_gray_of_not (by
      rw [not_and, Bool.not_eq_false] at hnew
      cases hallow : pm.is_ip_allowed ple.adr.ip with
      | false => exact Or.inl rfl
      | true => exact Or.inr (hnew hallow))]
    exact hinv

theorem trim_gray_peerlist (hinv : pm.Invariant) : pm.trim_gray_peerlist.Invariant :=
  ⟨fun e he e' he' => hinv.disjoint e he e' (Peerlist.mem_trim he'), hinv.allowed_white,
    fun e he => hinv.allowed_gray e (Peerlist.mem_trim he), hinv.white_limit,
    Peerlist.length_trim_le _ _⟩

theorem merge_peerlist (hinv : pm.Invariant) (outer_bs : List PeerlistEntry) :
    (pm.merge_peerlist outer_bs).Invariant := by
  apply trim_gray_peerlist
  -- every entry appended to the gray list keeps the invariant
  induction outer_bs generalizing pm with
  | nil => exact hinv
  | cons be outer_bs ih => exact ih (hinv.append_with_peer_gray be)

theorem apply (hinv : pm.Invariant) : ∀ op : PeerlistOp, (op.apply pm).Invariant
  | .append_with_peer_white pr => hinv.append_with_peer_white pr
  | .append_with_peer_gray pr => hinv.append_with_peer_gray pr
  | .merge_peerlist outer_bs => hinv.merge_peerlist outer_bs
  | .set_peer_just_seen peer addr now => hinv.append_with_peer_white ⟨addr, peer, now⟩

end Invariant

theorem invariant_run {pm : PeerlistManager} (hinv : pm.Invariant) :
    ∀ ops : List PeerlistOp, (pm.run ops).Invariant
  | [] => hinv
  | op :: ops => invariant_run (hinv.apply op) ops

/-! ## The head of the white list -/

/-- Below the largest `depth` the loop stops after the entry at which the count before the
increment is `depth + 1`: the seen entries from the front, `depth + 2 - cnt` of them. -/
theorem peerlistHeadLoop_eq_take {depth : UInt32} (hdepth : depth.toNat + 1 < 2 ^ 32) :
    ∀ (l : List PeerlistEntry) (cnt : UInt32) (bs_head : List PeerlistEntry),
      cnt.toNat ≤ depth.toNat + 1 →
      peerlistHeadLoop depth cnt bs_head l =
        bs_head ++ (l.filter (·.last_seen != 0)).take (depth.toNat + 2 - cnt.toNat)
  | [], cnt, bs_head, _ => by
    rw [peerlistHeadLoop, List.filter_nil, List.take_nil, List.append_nil]
  | vl :: rest, cnt, bs_head, hcnt => by
    rw [peerlistHeadLoop]
    by_cases hzero : vl.last_seen = 0
    · -- an entry never seen is passed over
      rw [if_pos hzero, List.filter_cons_of_neg (by simp [hzero]),
        peerlistHeadLoop_eq_take hdepth rest cnt bs_head hcnt]
    · rw [if_neg hzero, List.filter_cons_of_pos (by simp [hzero])]
      by_cases hstop : cnt > depth
      · -- the count before the increment exceeds `depth`: this entry is the last one
        have hlast : depth.toNat + 2 - cnt.toNat = 0 + 1 := by
          have := UInt32.lt_iff_toNat_lt.mp hstop
          omega
        rw [if_pos hstop, hlast, List.take_succ_cons, List.take_zero]
      · have hle : cnt.toNat ≤ depth.toNat := by
          have := mt UInt32.lt_iff_toNat_lt.mpr hstop
          omega
        have hsucc : (cnt + 1).toNat = cnt.toNat + 1 := by
          rw [UInt32.toNat_add, UInt32.toNat_one]
          exact Nat.mod_eq_of_lt (by omega)
        have hcount : depth.toNat + 2 - cnt.toNat = depth.toNat + 2 - (cnt + 1).toNat + 1 := by
          omega
        rw [if_neg hstop, peerlistHeadLoop_eq_take hdepth rest (cnt + 1) (bs_head ++ [vl])
          (by omega), hcount, List.take_succ_cons, List.append_assoc, List.singleton_append]

/-- At the largest `depth` the count never exceeds it, and every seen entry is taken. -/
theorem peerlistHeadLoop_of_eq_max :
    ∀ (l : List PeerlistEntry) (cnt : UInt32) (bs_head : List PeerlistEntry),
      peerlistHeadLoop 4294967295 cnt bs_head l = bs_head ++ l.filter (·.last_seen != 0)
  | [], cnt, bs_head => by rw [peerlistHeadLoop, List.filter_nil, List.append_nil]
  | vl :: rest, cnt, bs_head => by
    have hstop : ¬ cnt > 4294967295 := fun h => by
      have hlt := UInt32.lt_iff_toNat_lt.mp h
      simp only [UInt32.reduceToNat] at hlt
      have := cnt.toNat_lt
      omega
    rw [peerlistHeadLoop]
    by_cases hzero : vl.last_seen = 0
    · rw [if_pos hzero, List.filter_cons_of_neg (by simp [hzero]), peerlistHeadLoop_of_eq_max]
    · rw [if_neg hzero, if_neg hstop, List.filter_cons_of_pos (by simp [hzero]),
        peerlistHeadLoop_of_eq_max, List.append_assoc, List.singleton_append]

/-- **The head of the white list**: on a list of fewer than `2 ^ 32` entries,
`get_peerlist_head` appends the first `depth + 2` seen entries of the time index from its end. -/
theorem get_peerlist_head_eq (pm : PeerlistManager) (bs_head : List PeerlistEntry)
    (depth : UInt32) (hlen : pm.m_peers_white.items.length < 2 ^ 32) :
    pm.get_peerlist_head bs_head depth =
      bs_head ++ (pm.m_peers_white.items.reverse.filter (·.last_seen != 0)).take (depth.toNat + 2) := by
  unfold get_peerlist_head
  by_cases hdepth : depth.toNat + 1 < 2 ^ 32
  · rw [peerlistHeadLoop_eq_take hdepth _ 0 bs_head (Nat.zero_le _), UInt32.toNat_zero,
      Nat.sub_zero]
  · -- the largest `depth`: the loop takes every seen entry, fewer than `depth + 2`
    have hmax : depth = 4294967295 := by
      rw [← UInt32.toNat_inj]
      have := depth.toNat_lt
      simp only [UInt32.reduceToNat]
      omega
    have hfew : (pm.m_peers_white.items.reverse.filter (·.last_seen != 0)).length ≤
        depth.toNat + 2 := by
      have := List.length_filter_le (·.last_seen != 0) pm.m_peers_white.items.reverse
      rw [List.length_reverse] at this
      omega
    rw [hmax, peerlistHeadLoop_of_eq_max, ← hmax, List.take_of_length_le hfew]

end PeerlistManager

/-- What a head of the white list `white` is: `count` of its seen entries or all of them if
fewer, taken from the time index, most recent first, and no seen entry left out is more
recent than one taken. -/
structure PeerlistHead (white : List PeerlistEntry) (count : ℕ) (L : List PeerlistEntry) :
    Prop where
  length_eq : L.length = min count (white.filter (·.last_seen != 0)).length
  sublist : L.Sublist white.reverse
  seen : ∀ e ∈ L, e.last_seen ≠ 0
  nonincreasing : L.Pairwise fun e e' => e'.last_seen ≤ e.last_seen
  greatest : ∀ e ∈ L, ∀ e' ∈ white, e'.last_seen ≠ 0 → e' ∉ L → e'.last_seen ≤ e.last_seen

namespace PeerlistManager

/-- The first `count` seen entries of a time index read from its end are a head. -/
theorem peerlistHead_take {white : List PeerlistEntry}
    (hsorted : white.Pairwise fun a b => a.last_seen.toNat ≤ b.last_seen.toNat) (count : ℕ) :
    PeerlistHead white count ((white.reverse.filter (·.last_seen != 0)).take count) := by
  -- the seen entries from the end have nonincreasing times
  have hseen : (white.reverse.filter (·.last_seen != 0)).Pairwise
      fun e e' => e'.last_seen ≤ e.last_seen :=
    (List.pairwise_reverse.mpr (hsorted.imp UInt64.le_iff_toNat_le.mpr)).sublist
      List.filter_sublist
  refine ⟨?_, (List.take_sublist _ _).trans List.filter_sublist, fun e he => ?_,
    hseen.sublist (List.take_sublist _ _), fun e he e' he' hzero hnot => ?_⟩
  · rw [List.length_take, List.filter_reverse, List.length_reverse]
  · have := (List.mem_filter.mp (List.mem_of_mem_take he)).2
    simpa using this
  · -- a seen entry not taken comes after every one taken
    have hmem : e' ∈ white.reverse.filter (·.last_seen != 0) :=
      List.mem_filter.mpr ⟨List.mem_reverse.mpr he', by simpa using hzero⟩
    rw [← List.take_append_drop count (white.reverse.filter (·.last_seen != 0))] at hmem hseen
    rcases List.mem_append.mp hmem with h | h
    · exact absurd h hnot
    · exact (List.pairwise_append.mp hseen).2.2 e he e' h

/-- **Every run from empty lists** keeps the white and gray lists disjoint, allowed and within
their limits, and `get_peerlist_head(bs_head, depth)` then appends a head of `depth + 2`
entries of the white list. -/
theorem run_invariant_and_get_peerlist_head (allow_local_ip : Bool) (ops : List PeerlistOp) :
    ((init allow_local_ip).run ops).Invariant ∧
      ∀ (bs_head : List PeerlistEntry) (depth : UInt32), ∃ L,
        ((init allow_local_ip).run ops).get_peerlist_head bs_head depth = bs_head ++ L ∧
          PeerlistHead ((init allow_local_ip).run ops).m_peers_white.items (depth.toNat + 2) L := by
  have hinv := invariant_run (invariant_init allow_local_ip) ops
  refine ⟨hinv, fun bs_head depth => ⟨_, get_peerlist_head_eq _ bs_head depth ?_,
    peerlistHead_take ((init allow_local_ip).run ops).m_peers_white.sorted _⟩⟩
  have := hinv.white_limit
  unfold P2P_LOCAL_WHITE_PEERLIST_LIMIT at this
  omega

/-- Two peers seen at times 5 and 7 from a manager that refuses local addresses. -/
def samplePeerlistOps : List PeerlistOp :=
  [.set_peer_just_seen 1 ⟨0x08080808, 8080⟩ 5, .set_peer_just_seen 2 ⟨0x04040808, 8080⟩ 7]

/-- With `depth = 0` the head has both peers, not none. -/
theorem get_peerlist_head_depth_zero :
    (((init false).run samplePeerlistOps).get_peerlist_head [] 0).length = 2 := by
  obtain ⟨-, hhead⟩ := run_invariant_and_get_peerlist_head false samplePeerlistOps
  obtain ⟨L, hL, hspec⟩ := hhead [] 0
  rw [hL, List.nil_append, hspec.length_eq]
  decide

end PeerlistManager

end UltraNoteCore
