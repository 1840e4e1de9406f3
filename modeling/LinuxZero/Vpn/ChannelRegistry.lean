import LinuxZero.Lib.Run
import LinuxZero.Vpn.BusinessServer
import LinuxZero.Vpn.RelayRuns
import Mathlib.Data.Int.Interval

/-! # The two registries of channels

A channel is entered twice: under its key in the data channel server, and under its number in the
record of its client. A successful creation enters both. When a client leaves, `delete_channel_server`
closes its listeners but keeps the entry of the data channel server, so that the registries agree as
long as no client with a channel leaves.
-/

namespace LinuxZero.Vpn

inductive BusinessEvent where
  /-- Another socket manager of the program takes a number from the shared counter. -/
  | takeIdx
  | connect (fd : ℤ)
  | create (clientId : ℤ) (addresses : ChannelAddresses) (calls : ChannelCalls)
  | disconnect (p : ℕ)
deriving DecidableEq, Repr

namespace BusinessServer

section Events

variable (b : BusinessServer)

def Enabled : BusinessEvent → Prop
  | .disconnect p => ∃ fd interest, b.data.kernel.epoll b.epfd fd = some ⟨interest, .client p⟩
  | _ => True

def apply : BusinessEvent → BusinessServer
  | .takeIdx => { b with data := { b.data with idx := b.data.idx + 1 } }
  | .connect fd => b.connect fd
  | .create clientId addresses calls => (b.createChannelServer clientId addresses calls).2
  | .disconnect p => b.disconnect p

/-- A client that leaves has no channel. -/
def LeavesNothing : BusinessEvent → Prop
  | .disconnect p => ∀ c, b.clinetMap (clientIdOf (b.socket p).shFd) = some c →
      (b.client c).channelMap.isEmpty = true
  | _ => True

/-- The connection of a client with this number is being served. -/
def Connected (clientId : ℤ) (p : ℕ) : Prop :=
  clientIdOf (b.socket p).shFd = clientId ∧
    ∃ interest, b.data.kernel.epoll b.epfd (b.socket p).fd = some ⟨interest, .client p⟩

/-- The channel is in the record of a client of the server. -/
def HasChannel (clientId channelId : ℤ) : Prop :=
  ∃ c, b.clinetMap clientId = some c ∧ channelId ∈ (b.client c).channelMap

end Events

def BusinessStep (b : BusinessServer) (event : BusinessEvent) (d : BusinessServer) : Prop :=
  b.Enabled event ∧ d = b.apply event

def KeepingStep (b : BusinessServer) (event : BusinessEvent) (d : BusinessServer) : Prop :=
  BusinessStep b event d ∧ b.LeavesNothing event

/-- The program after `start`, before any client has connected. -/
structure Started (b : BusinessServer) : Prop where
  state : b = .initial b.data b.serverFd b.epfd
  data : b.data.Started
  epfds : b.data.acceptEpfd ≠ b.epfd ∧ b.data.epfd ≠ b.epfd
  instance_ : b.data.kernel.files b.epfd = some .epoll
  empty : ∀ fd, b.data.kernel.epoll b.epfd fd = none

/-- The range of `int`. -/
def IsInt (n : ℤ) : Prop := -2 ^ 31 ≤ n ∧ n < 2 ^ 31

theorem channelKey_injective {clientId channelId clientId' channelId' : ℤ} (range : IsInt channelId)
    (range' : IsInt channelId') (same : channelKey clientId channelId = channelKey clientId' channelId') :
    clientId = clientId' ∧ channelId = channelId' := by
  obtain ⟨_, _⟩ := range
  obtain ⟨_, _⟩ := range'
  rw [channelKey, channelKey] at same
  omega

/-- An entry of the data channel server's map names two sockets that listen. -/
structure OpenChannel (s : DataChannelServer) (w : ℕ) : Prop where
  allocated : w < s.servers.next
  partner : (s.server w).removte < s.servers.next
  listening : s.kernel.files (s.server w).fd = some .listening
  partnerListening : s.kernel.files (s.server (s.server w).removte).fd = some .listening

/-- The invariant of the runs in which no client with a channel leaves. -/
structure Registry (b : BusinessServer) : Prop where
  epfds : b.data.acceptEpfd ≠ b.epfd ∧ b.data.epfd ≠ b.epfd
  instances : b.data.kernel.files b.data.epfd = some .epoll ∧ b.data.kernel.files b.epfd = some .epoll
  served : ∀ fd interest p, b.data.kernel.epoll b.epfd fd = some ⟨interest, .client p⟩ →
    b.data.kernel.files fd = some .connection ∧ p < b.sockets.next ∧ (b.socket p).fd = fd
  records : ∀ clientId c, b.clinetMap clientId = some c → c < b.clients.next ∧
    (b.client c).clinetId = clientId
  connected : ∀ clientId c, b.clinetMap clientId = some c → b.Connected clientId (b.client c).info
  numbered : ∀ clientId c (n : ℤ) channelInfo, b.clinetMap clientId = some c →
    (b.client c).channelMap[n]? = some channelInfo →
      channelInfo.channelId = n ∧ 1 ≤ n ∧ n ≤ (b.client c).channelMap.size
  entered : ∀ key, b.data.channelMap key ≠ none ↔
    ∃ clientId channelId, b.HasChannel clientId channelId ∧ key = channelKey clientId channelId
  opened : ∀ key w, b.data.channelMap key = some w → OpenChannel b.data w
  apart : ∀ key key' w w', b.data.channelMap key = some w → b.data.channelMap key' = some w' →
    (b.data.server w).fd = (b.data.server w').fd → key = key'

theorem Started.registry {b : BusinessServer} (started : Started b) : Registry b := by
  have noClient : ∀ clientId c, b.clinetMap clientId ≠ some c := by
    intro clientId c present
    rw [started.state] at present
    exact nomatch present
  have noChannel : ∀ key w, b.data.channelMap key ≠ some w := by
    intro key w present
    rw [started.data.state] at present
    exact nomatch present
  refine ⟨started.epfds, ⟨started.data.instance_, started.instance_⟩, ?_,
    fun id c present => absurd present (noClient id c), fun id c present =>
    absurd present (noClient id c), fun id c _ _ present => absurd present (noClient id c),
    fun key => ⟨fun present => ?_, ?_⟩, fun key w present => absurd present (noChannel key w),
    fun key _ w _ present => absurd present (noChannel key w)⟩
  · intro fd interest p present
    rw [started.empty] at present
    exact nomatch present
  · obtain ⟨w, isEntry⟩ := Option.ne_none_iff_exists'.mp present
    exact absurd isEntry (noChannel key w)
  · rintro ⟨clientId, channelId, ⟨c, present, _⟩, _⟩
    exact absurd present (noClient clientId c)

variable {b d : BusinessServer}

/-- The channels of one client have listeners of their own, so there are fewer than descriptors. -/
theorem Registry.size_le (registry : Registry b) {clientId : ℤ} {c : ℕ}
    (present : b.clinetMap clientId = some c) :
    ((b.client c).channelMap.size : ℤ) ≤ 2 ^ 31 - 2 := by
  let fdOf (n : ℤ) : ℤ := (b.data.server ((b.data.channelMap (channelKey clientId n)).getD 0)).fd
  have entry : ∀ n ∈ (b.client c).channelMap, ∃ w, b.data.channelMap (channelKey clientId n) = some w ∧
      fdOf n = (b.data.server w).fd := by
    intro n member
    obtain ⟨w, isEntry⟩ := Option.ne_none_iff_exists'.mp
      ((registry.entered (channelKey clientId n)).mpr ⟨clientId, n, ⟨c, present, member⟩, rfl⟩)
    exact ⟨w, isEntry, by simp only [fdOf, isEntry, Option.getD_some]⟩
  have nodup : (b.client c).channelMap.keys.Nodup := by
    refine (b.client c).channelMap.distinct_keys.imp fun different same => different ?_
    rw [same]
    exact Std.compare_self
  have inside : ∀ n ∈ (b.client c).channelMap.keys.toFinset,
      fdOf n ∈ ((Finset.Ico (0 : ℤ) (2 ^ 31)).erase b.data.epfd).erase b.epfd := by
    intro n member
    obtain ⟨w, isEntry, isFd⟩ := entry n (Std.TreeMap.mem_keys.mp (List.mem_toFinset.mp member))
    have listening := (registry.opened _ w isEntry).listening
    have bounds := b.data.kernel.bounded (fdOf n) (by rw [isFd, listening]; simp)
    have notInstance : ∀ e, b.data.kernel.files e = some .epoll → fdOf n ≠ e := by
      rintro e instance_ same
      rw [← same, isFd, listening] at instance_
      contradiction
    simp only [Finset.mem_erase, Finset.mem_Ico]
    exact ⟨notInstance _ registry.instances.2, notInstance _ registry.instances.1, bounds⟩
  have injective : Set.InjOn fdOf (b.client c).channelMap.keys.toFinset := by
    intro n member n' member' same
    obtain ⟨w, isEntry, isFd⟩ := entry n (Std.TreeMap.mem_keys.mp (List.mem_toFinset.mp member))
    obtain ⟨w', isEntry', isFd'⟩ := entry n' (Std.TreeMap.mem_keys.mp (List.mem_toFinset.mp member'))
    have sameKey := registry.apart _ _ w w' isEntry isEntry' (by rw [← isFd, ← isFd', same])
    rw [channelKey, channelKey] at sameKey
    omega
  have total := Finset.card_le_card_of_injOn fdOf inside injective
  have descriptors : ∀ bound : ℤ, (Finset.Ico 0 bound).card = bound.toNat := fun bound =>
    (Int.card_Ico 0 bound).trans (by rw [sub_zero])
  have epfdBounds := b.data.kernel.bounded b.epfd (by rw [registry.instances.2]; simp)
  have relayBounds := b.data.kernel.bounded b.data.epfd (by rw [registry.instances.1]; simp)
  rw [List.toFinset_card_of_nodup nodup, Std.TreeMap.length_keys, Finset.card_erase_of_mem,
    Finset.card_erase_of_mem, descriptors] at total
  · omega
  · exact Finset.mem_Ico.mpr relayBounds
  · exact Finset.mem_erase.mpr ⟨registry.epfds.2.symm, Finset.mem_Ico.mpr epfdBounds⟩

/-- The loop over the channels of a client finds the largest number. -/
private theorem foldl_largest (entries : List (ℤ × VpnChannelInfo)) (start : ℤ) :
    let largest := entries.foldl
      (fun max entry => if max < entry.2.channelId then entry.2.channelId else max) start
    (start ≤ largest ∧ ∀ entry ∈ entries, entry.2.channelId ≤ largest) ∧
      (largest = start ∨ ∃ entry ∈ entries, largest = entry.2.channelId) := by
  induction entries generalizing start with
  | nil => exact ⟨⟨le_rfl, fun _ member => nomatch member⟩, Or.inl rfl⟩
  | cons entry rest ih =>
    obtain ⟨⟨above, all⟩, attained⟩ := ih (if start < entry.2.channelId then entry.2.channelId else start)
    have both : start ≤ (if start < entry.2.channelId then entry.2.channelId else start) ∧
        entry.2.channelId ≤ (if start < entry.2.channelId then entry.2.channelId else start) := by
      split_ifs <;> omega
    refine ⟨⟨both.1.trans above, fun other member => ?_⟩, ?_⟩
    · rcases List.mem_cons.mp member with rfl | later
      · exact both.2.trans above
      · exact all other later
    · rcases attained with same | ⟨other, member, same⟩
      · by_cases larger : start < entry.2.channelId
        · exact Or.inr ⟨entry, List.mem_cons_self .., same.trans (if_pos larger)⟩
        · exact Or.inl (same.trans (if_neg larger))
      · exact Or.inr ⟨other, List.mem_cons_of_mem _ member, same⟩

/-- The number of a new channel is larger than all numbers of the client, and an `int`. -/
theorem Registry.maxChannelId_spec (registry : Registry b) {clientId : ℤ} {c : ℕ}
    (present : b.clinetMap clientId = some c) :
    (∀ n ∈ (b.client c).channelMap, n ≤ b.maxChannelId c) ∧ 0 ≤ b.maxChannelId c ∧
      b.maxChannelId c ≤ (b.client c).channelMap.size := by
  rw [maxChannelId, Std.TreeMap.foldl_eq_foldl_toList]
  obtain ⟨⟨above, all⟩, attained⟩ := foldl_largest (b.client c).channelMap.toList 0
  refine ⟨fun n member => ?_, above, ?_⟩
  · obtain ⟨channelInfo, found⟩ := Option.isSome_iff_exists.mp
      (Std.TreeMap.isSome_getElem?_iff_mem.mpr member)
    have largest := all (n, channelInfo) (Std.TreeMap.mem_toList_iff_getElem?_eq_some.mpr found)
    rwa [(registry.numbered clientId c n channelInfo present found).1] at largest
  · rcases attained with same | ⟨⟨n, channelInfo⟩, member, same⟩
    · exact same.trans_le (Int.natCast_nonneg _)
    · have found := Std.TreeMap.mem_toList_iff_getElem?_eq_some.mp member
      obtain ⟨isNumber, _, below⟩ := registry.numbered clientId c n channelInfo present found
      exact (same.trans isNumber).trans_le below

/-- The numbers of all channels are positive values of `int`. -/
theorem Registry.isInt (registry : Registry b) {clientId channelId : ℤ}
    (has : b.HasChannel clientId channelId) :
    1 ≤ channelId ∧ IsInt channelId := by
  obtain ⟨c, present, member⟩ := has
  obtain ⟨channelInfo, found⟩ := Option.isSome_iff_exists.mp
    (Std.TreeMap.isSome_getElem?_iff_mem.mpr member)
  obtain ⟨_, positive, below⟩ := registry.numbered clientId c channelId channelInfo present found
  have few := registry.size_le present
  exact ⟨positive, by omega, by omega⟩

/-- A creation that fails, or that has not yet entered its channel. -/
theorem Registry.grows {k : Kernel EventPtr} {h : Heap ServerSocketInfo} (registry : Registry b)
    (grows : DataChannelServer.Grows b.data k h) : Registry { b with data := b.data.withSystem k h } := by
  have kept : ∀ fd kind, b.data.kernel.files fd = some kind → k.files fd = some kind := by
    intro fd kind isKind
    rw [(grows.extension fd (by rw [isKind]; simp)).1, isKind]
  have server : ∀ w, w < b.data.servers.next → (b.data.withSystem k h).server w = b.data.server w :=
    grows.old
  refine { registry with instances := ?_, served := ?_, connected := ?_, opened := ?_, apart := ?_ }
  · exact ⟨kept _ _ registry.instances.1, kept _ _ registry.instances.2⟩
  · intro fd interest p present
    rcases grows.registrations _ _ _ present with before | ⟨isAccept, _⟩
    · obtain ⟨connection, rest⟩ := registry.served fd interest p before
      exact ⟨kept _ _ connection, rest⟩
    · exact absurd isAccept.symm registry.epfds.1
  · intro clientId c present
    obtain ⟨isId, interest, isServed⟩ := registry.connected clientId c present
    have isOpen := (registry.served _ _ _ isServed).1
    exact ⟨isId, interest, ((grows.extension _ (by rw [isOpen]; simp)).2.1 _).trans isServed⟩
  · intro key w isEntry
    obtain ⟨allocated, partner, listening, partnerListening⟩ := registry.opened key w isEntry
    refine ⟨allocated.trans_le grows.next, ?_, ?_, ?_⟩
    · rw [server w allocated]
      exact partner.trans_le grows.next
    · rw [server w allocated]
      exact kept _ _ listening
    · rw [server w allocated, server _ partner]
      exact kept _ _ partnerListening
  · intro key key' w w' isEntry isEntry'
    rw [server w (registry.opened key w isEntry).allocated,
      server w' (registry.opened key' w' isEntry').allocated]
    exact registry.apart key key' w w' isEntry isEntry'

/-- A channel with its entries on both sides. -/
private def withChannel (b : BusinessServer) (c w : ℕ) (key : ℤ) (channelInfo : VpnChannelInfo) :
    BusinessServer :=
  let channelMap := Function.update b.data.channelMap key (some w)
  { b with data := { b.data with channelMap := channelMap } }.enterChannel c channelInfo

/-- The next channel of a client, which `w` serves. -/
private def withNextChannel (b : BusinessServer) (clientId : ℤ) (c w : ℕ)
    (addresses : ChannelAddresses) : BusinessServer :=
  b.withChannel c w (channelKey clientId (b.maxChannelId c + 1)) (b.newChannelInfo c clientId addresses)

section NextChannel

variable {clientId : ℤ} {c w : ℕ} {addresses : ChannelAddresses}

theorem Registry.next_isInt (registry : Registry b) (present : b.clinetMap clientId = some c) :
    IsInt (b.maxChannelId c + 1) := by
  obtain ⟨_, nonneg, below⟩ := registry.maxChannelId_spec present
  have few := registry.size_le present
  exact ⟨by omega, by omega⟩

theorem Registry.next_notMem (registry : Registry b) (present : b.clinetMap clientId = some c) :
    b.maxChannelId c + 1 ∉ (b.client c).channelMap := by
  intro member
  have bound := (registry.maxChannelId_spec present).1 _ member
  omega

/-- There is no entry under the key of the next channel. -/
theorem Registry.next_key (registry : Registry b) (present : b.clinetMap clientId = some c) :
    b.data.channelMap (channelKey clientId (b.maxChannelId c + 1)) = none := by
  by_contra isEntry
  obtain ⟨clientId', channelId', has, same⟩ := (registry.entered _).mp isEntry
  obtain ⟨rfl, rfl⟩ := channelKey_injective (registry.next_isInt present) (registry.isInt has).2 same
  obtain ⟨c', present', member⟩ := has
  obtain rfl := Option.some.inj (present.symm.trans present')
  exact registry.next_notMem present member

private theorem client_withNextChannel : (b.withNextChannel clientId c w addresses).client c =
    { b.client c with
      channelMap := (b.client c).channelMap.insertIfNew (b.maxChannelId c + 1)
        (b.newChannelInfo c clientId addresses) } :=
  Function.update_self ..

private theorem client_withNextChannel_of_ne {c' : ℕ} (apart : c' ≠ c) :
    (b.withNextChannel clientId c w addresses).client c' = b.client c' :=
  Function.update_of_ne apart ..

private theorem kept_withNextChannel (c' : ℕ) :
    ((b.withNextChannel clientId c w addresses).client c').clinetId = (b.client c').clinetId ∧
      ((b.withNextChannel clientId c w addresses).client c').info = (b.client c').info := by
  rcases eq_or_ne c' c with rfl | apart
  · rw [client_withNextChannel]
    exact ⟨rfl, rfl⟩
  · rw [client_withNextChannel_of_ne apart]
    exact ⟨rfl, rfl⟩

private theorem channelMap_withNextChannel : (b.withNextChannel clientId c w addresses).data.channelMap =
    Function.update b.data.channelMap (channelKey clientId (b.maxChannelId c + 1)) (some w) := rfl

private theorem entry_withNextChannel {key : ℤ} {v : ℕ}
    (isEntry : (b.withNextChannel clientId c w addresses).data.channelMap key = some v) :
    key = channelKey clientId (b.maxChannelId c + 1) ∧ v = w ∨
      key ≠ channelKey clientId (b.maxChannelId c + 1) ∧ b.data.channelMap key = some v := by
  rw [channelMap_withNextChannel] at isEntry
  rcases eq_or_ne key (channelKey clientId (b.maxChannelId c + 1)) with rfl | apart
  · rw [Function.update_self] at isEntry
    exact Or.inl ⟨rfl, (Option.some.inj isEntry).symm⟩
  · rw [Function.update_of_ne apart] at isEntry
    exact Or.inr ⟨apart, isEntry⟩

private theorem hasChannel_withNextChannel (registry : Registry b) (present : b.clinetMap clientId = some c)
    (clientId' n : ℤ) : (b.withNextChannel clientId c w addresses).HasChannel clientId' n ↔
      b.HasChannel clientId' n ∨ clientId' = clientId ∧ n = b.maxChannelId c + 1 := by
  constructor
  · rintro ⟨c', present', member⟩
    rcases eq_or_ne c' c with rfl | apart
    · obtain rfl := (registry.records _ _ present').2.symm.trans (registry.records _ _ present).2
      rw [client_withNextChannel, Std.TreeMap.mem_insertIfNew, Std.compare_eq_iff_eq] at member
      rcases member with rfl | before
      · exact Or.inr ⟨rfl, rfl⟩
      · exact Or.inl ⟨c', present', before⟩
    · rw [client_withNextChannel_of_ne apart] at member
      exact Or.inl ⟨c', present', member⟩
  · rintro (⟨c', present', member⟩ | ⟨rfl, rfl⟩)
    · refine ⟨c', present', ?_⟩
      rcases eq_or_ne c' c with rfl | apart
      · rw [client_withNextChannel, Std.TreeMap.mem_insertIfNew]
        exact Or.inr member
      · rwa [client_withNextChannel_of_ne apart]
    · refine ⟨c, present, ?_⟩
      rw [client_withNextChannel, Std.TreeMap.mem_insertIfNew]
      exact Or.inl Std.compare_self

private theorem numbered_withNextChannel (registry : Registry b) (present : b.clinetMap clientId = some c)
    (clientId' : ℤ) (c' : ℕ) (n : ℤ) (channelInfo : VpnChannelInfo)
    (present' : (b.withNextChannel clientId c w addresses).clinetMap clientId' = some c')
    (found : ((b.withNextChannel clientId c w addresses).client c').channelMap[n]? = some channelInfo) :
    channelInfo.channelId = n ∧ 1 ≤ n ∧
      n ≤ ((b.withNextChannel clientId c w addresses).client c').channelMap.size := by
  rcases eq_or_ne c' c with rfl | apart
  · obtain ⟨_, nonneg, below⟩ := registry.maxChannelId_spec present
    rw [client_withNextChannel] at found ⊢
    dsimp only at found ⊢
    rw [Std.TreeMap.getElem?_insertIfNew] at found
    rw [Std.TreeMap.size_insertIfNew, if_neg (registry.next_notMem present)]
    split_ifs at found with isNew
    · obtain rfl := Std.compare_eq_iff_eq.mp isNew.1
      obtain rfl := Option.some.inj found
      exact ⟨rfl, by omega, by push_cast; omega⟩
    · obtain ⟨isNumber, positive, size⟩ := registry.numbered clientId' c' n channelInfo present' found
      exact ⟨isNumber, positive, by push_cast; omega⟩
  · rw [client_withNextChannel_of_ne apart] at found ⊢
    exact registry.numbered clientId' c' n channelInfo present' found

private theorem entered_withNextChannel (registry : Registry b)
    (present : b.clinetMap clientId = some c) (key : ℤ) :
    (b.withNextChannel clientId c w addresses).data.channelMap key ≠ none ↔
      ∃ clientId' channelId,
        (b.withNextChannel clientId c w addresses).HasChannel clientId' channelId ∧
        key = channelKey clientId' channelId := by
  simp only [hasChannel_withNextChannel registry present]
  constructor
  · intro isEntry
    obtain ⟨v, isV⟩ := Option.ne_none_iff_exists'.mp isEntry
    rcases entry_withNextChannel isV with ⟨rfl, _⟩ | ⟨_, before⟩
    · exact ⟨clientId, _, Or.inr ⟨rfl, rfl⟩, rfl⟩
    · obtain ⟨clientId', n, has, same⟩ := (registry.entered key).mp (by rw [before]; simp)
      exact ⟨clientId', n, Or.inl has, same⟩
  · rintro ⟨clientId', n, has, rfl⟩
    rw [channelMap_withNextChannel]
    rcases eq_or_ne (channelKey clientId' n) (channelKey clientId (b.maxChannelId c + 1)) with
        same | apart
    · rw [same, Function.update_self]
      simp
    · rw [Function.update_of_ne apart]
      rcases has with before | ⟨rfl, rfl⟩
      · exact (registry.entered _).mpr ⟨clientId', n, before, rfl⟩
      · exact absurd rfl apart

end NextChannel

/-- The new channel is entered on both sides. -/
theorem Registry.enters (registry : Registry b) {clientId : ℤ} {c w : ℕ}
    (present : b.clinetMap clientId = some c) (addresses : ChannelAddresses)
    (opened : OpenChannel b.data w)
    (fresh : ∀ key v, b.data.channelMap key = some v → (b.data.server v).fd ≠ (b.data.server w).fd)
    {data : DataChannelServer} (isData : data =
      b.data.insertChannel (channelKey clientId (b.newChannelInfo c clientId addresses).channelId) w) :
    Registry ({ b with data := data }.enterChannel c (b.newChannelInfo c clientId addresses)) := by
  have inserted : b.data.insertChannel
    (channelKey clientId (b.newChannelInfo c clientId addresses).channelId) w =
      (b.withNextChannel clientId c w addresses).data := by
    rw [DataChannelServer.insertChannel]
    simp only [newChannelInfo, registry.next_key present]
    rfl
  rw [isData, inserted]
  change Registry (b.withNextChannel clientId c w addresses)
  refine { registry with
    records := ?_, connected := ?_, numbered := numbered_withNextChannel registry present,
                         entered := entered_withNextChannel registry present, opened := ?_, apart := ?_ }
  · intro clientId' c' present'
    obtain ⟨bound, isId⟩ := registry.records clientId' c' present'
    exact ⟨bound, (kept_withNextChannel c').1.trans isId⟩
  · intro clientId' c' present'
    rw [(kept_withNextChannel c').2]
    exact registry.connected clientId' c' present'
  · intro key v isEntry
    rcases entry_withNextChannel isEntry with ⟨_, rfl⟩ | ⟨_, before⟩
    · exact { opened with }
    · exact { registry.opened key v before with }
  · intro key key' v v' isEntry isEntry' same
    rcases entry_withNextChannel isEntry with ⟨rfl, rfl⟩ | ⟨_, before⟩ <;>
      rcases entry_withNextChannel isEntry' with ⟨rfl, rfl⟩ | ⟨_, before'⟩
    · rfl
    · exact absurd same.symm (fresh key' v' before')
    · exact absurd same (fresh key v before)
    · exact registry.apart key key' v v' before before' same

theorem Registry.createChannelServer (registry : Registry b) (clientId : ℤ) (addresses : ChannelAddresses)
    (calls : ChannelCalls) : Registry (b.createChannelServer clientId addresses calls).2 := by
  cases present : b.clinetMap clientId with
  | none =>
    simp only [BusinessServer.createChannelServer, present]
    exact registry
  | some c =>
    rcases b.data.createChannelServer_cases (b.newChannelInfo c clientId addresses) calls with
      ⟨k, notBound, created⟩ | ⟨k, h, _, reached, _, created⟩ |
      ⟨k, h, ⟨bound, bothBound⟩, _, _, reached, listening, created⟩
    · simp only [BusinessServer.createChannelServer, present, created]
      exact registry.grows notBound.grows
    · simp only [BusinessServer.createChannelServer, present, created]
      exact registry.grows reached.grows
    · simp only [BusinessServer.createChannelServer, present, created]
      obtain ⟨_, out⟩ := reached.out
      obtain ⟨_, in_⟩ := reached.in_
      have next := reached.next
      refine (registry.grows reached.grows).enters present addresses ⟨?_, ?_, ?_, ?_⟩ ?_ rfl
      · rw [DataChannelServer.servers_withSystem]
        omega
      · simp only [DataChannelServer.server, DataChannelServer.servers_withSystem, in_,
          DataChannelServer.inInfo]
        omega
      · simp only [DataChannelServer.server, DataChannelServer.servers_withSystem, in_,
          DataChannelServer.inInfo]
        exact listening.inListening
      · simp only [DataChannelServer.server, DataChannelServer.servers_withSystem, in_,
          DataChannelServer.inInfo, out, DataChannelServer.outInfo]
        exact listening.outListening
      · intro key v isEntry same
        have opened := registry.opened key v isEntry
        have isFd : (b.data.server v).fd = calls.inCalls.socket := by
          simpa only [DataChannelServer.server, DataChannelServer.servers_withSystem, in_,
            DataChannelServer.inInfo, (reached.old v opened.allocated).1] using same
        have busy := opened.listening
        rw [isFd, bothBound.inFresh] at busy
        contradiction

/-- A new connection, not yet in `m_clinet_map`. -/
theorem Registry.joined (registry : Registry b) {fd : ℤ} (available : b.data.kernel.Available fd) :
    Registry (b.joined fd available) := by
  have opened := (Kernel.Extends.refl b.data.kernel).openAt .connection available
  have extension : b.data.kernel.Extends (b.joined fd available).data.kernel :=
    opened.epollAdd available.2.2
  have kept : ∀ other kind, b.data.kernel.files other = some kind →
      (b.joined fd available).data.kernel.files other = some kind := by
    intro other kind isKind
    rw [(extension other (by rw [isKind]; simp)).1, isKind]
  have client : ∀ c, c < b.clients.next → (b.joined fd available).client c = b.client c :=
    fun c below => Function.update_of_ne (Nat.ne_of_lt below) ..
  have has : ∀ clientId n, (b.joined fd available).HasChannel clientId n ↔ b.HasChannel clientId n := by
    intro clientId n
    constructor
    · rintro ⟨c, present, member⟩
      rw [client c (registry.records _ c present).1] at member
      exact ⟨c, present, member⟩
    · rintro ⟨c, present, member⟩
      refine ⟨c, present, ?_⟩
      rwa [client c (registry.records _ c present).1]
  obtain ⟨own, others⟩ := b.socket_joined available
  refine ⟨registry.epfds, ⟨kept _ _ registry.instances.1, kept _ _ registry.instances.2⟩, ?_, ?_,
    ?_, ?_, ?_, ?_, registry.apart⟩
  · intro other interest p present
    rcases Kernel.epollAdd_some present with ⟨_, rfl, same, _⟩ | before
    · cases same
      refine ⟨?_, Nat.lt_succ_self _, by rw [own]⟩
      exact (congrFun (Kernel.files_epollAdd ..) _).trans (Function.update_self ..)
    · obtain ⟨connection, below, isFd⟩ := registry.served other interest p before
      refine ⟨kept _ _ connection, below.trans (Nat.lt_succ_self _), ?_⟩
      rw [others p (Nat.ne_of_lt below), isFd]
  · intro clientId c present
    obtain ⟨below, isId⟩ := registry.records clientId c present
    rw [client c below]
    exact ⟨below.trans (Nat.lt_succ_self _), isId⟩
  · intro clientId c present
    obtain ⟨isId, interest, isServed⟩ := registry.connected clientId c present
    obtain ⟨isOpen, below, _⟩ := registry.served _ _ _ isServed
    rw [client c (registry.records _ c present).1, Connected, others _ (Nat.ne_of_lt below)]
    exact ⟨isId, interest, ((extension _ (by rw [isOpen]; simp)).2.1 _).trans isServed⟩
  · intro clientId c n channelInfo present found
    rw [client c (registry.records _ c present).1] at found ⊢
    exact registry.numbered clientId c n channelInfo present found
  · intro key
    simp only [has]
    exact registry.entered key
  · intro key w isEntry
    obtain ⟨allocated, partner, listening, partnerListening⟩ := registry.opened key w isEntry
    exact ⟨allocated, partner, kept _ _ listening, kept _ _ partnerListening⟩

/-- The record of a new client has no channel. -/
theorem Registry.insertClient (registry : Registry b) {clientId : ℤ} {c : ℕ} (below : c < b.clients.next)
    (isId : (b.client c).clinetId = clientId) (isServed : b.Connected clientId (b.client c).info)
    (empty : (b.client c).channelMap = ∅) : Registry (b.insertClient clientId c) := by
  cases present : b.clinetMap clientId with
  | some _ =>
    simp only [BusinessServer.insertClient, present]
    exact registry
  | none =>
    simp only [BusinessServer.insertClient, present]
    have entry : ∀ clientId' c', Function.update b.clinetMap clientId (some c) clientId' = some c' →
        clientId' = clientId ∧ c' = c ∨ b.clinetMap clientId' = some c' := by
      intro clientId' c' isEntry
      rcases eq_or_ne clientId' clientId with rfl | apart
      · rw [Function.update_self] at isEntry
        exact Or.inl ⟨rfl, (Option.some.inj isEntry).symm⟩
      · rw [Function.update_of_ne apart] at isEntry
        exact Or.inr isEntry
    refine { registry with
      records := ?_, connected := ?_, numbered := ?_, entered := ?_,
      opened := fun key w isEntry => { registry.opened key w isEntry with } }
    · intro clientId' c' isEntry
      rcases entry clientId' c' isEntry with ⟨rfl, rfl⟩ | before
      · exact ⟨below, isId⟩
      · exact registry.records clientId' c' before
    · intro clientId' c' isEntry
      rcases entry clientId' c' isEntry with ⟨rfl, rfl⟩ | before
      · exact isServed
      · exact registry.connected clientId' c' before
    · intro clientId' c' n channelInfo isEntry found
      rcases entry clientId' c' isEntry with ⟨rfl, rfl⟩ | before
      · simp [client, empty] at found
      · exact registry.numbered clientId' c' n channelInfo before found
    · intro key
      rw [registry.entered key]
      constructor
      · rintro ⟨clientId', n, ⟨c', isEntry, member⟩, same⟩
        refine ⟨clientId', n, ⟨c', ?_, member⟩, same⟩
        have apart : clientId' ≠ clientId := by
          rintro rfl
          rw [present] at isEntry
          contradiction
        exact (Function.update_of_ne apart ..).trans isEntry
      · rintro ⟨clientId', n, ⟨c', isEntry, member⟩, same⟩
        rcases entry clientId' c' isEntry with ⟨rfl, rfl⟩ | before
        · simp [client, empty] at member
        · exact ⟨clientId', n, ⟨c', before, member⟩, same⟩

theorem Registry.connect (registry : Registry b) (fd : ℤ) : Registry (b.connect fd) := by
  rcases b.connect_cases fd with same | ⟨available, same⟩
  · rw [same]
    exact registry
  · rw [same]
    have own : (b.joined fd available).client b.clients.next =
        { clinetId := clientIdOf b.data.idx, info := b.sockets.next } := Function.update_self ..
    refine (registry.joined available).insertClient (Nat.lt_succ_self _) (by rw [own]) ?_ (by rw [own])
    have apart : b.epfd ≠ fd := available.ne (by rw [registry.instances.2]; simp)
    rw [own, Connected, (b.socket_joined available).1]
    refine ⟨rfl, .epollIn,
      Kernel.epollAdd_self ?_ ?_ apart (Kernel.unregistered_of_closed available.2.2 _)⟩
    · rw [Kernel.files_openAt, Function.update_of_ne apart, registry.instances.2]
    · rw [Kernel.files_openAt, Function.update_self]
      simp

section Leaving

variable {p : ℕ} {interest : Interest}

/-- There are no channels to delete. -/
private theorem departed_of_leavesNothing (leaves : b.LeavesNothing (.disconnect p)) :
    b.departed p = b.data := by
  rw [BusinessServer.departed]
  split
  · rfl
  · next c entry =>
    have nothing := leaves c entry
    have empty : (b.client c).channelMap.toList = [] :=
      List.isEmpty_iff.mp (by rw [Std.TreeMap.isEmpty_toList, nothing])
    rw [deleteChannels]
    dsimp only
    rw [Std.TreeMap.foldl_eq_foldl_toList, empty]
    rfl

private theorem kernel_disconnect (leaves : b.LeavesNothing (.disconnect p)) :
    (b.disconnect p).data.kernel =
    (b.data.kernel.close (b.socket p).fd).epollDel b.epfd (b.socket p).fd := by
  rw [(b.disconnect_departs p).kernel, departed_of_leavesNothing leaves]

private theorem data_disconnect (leaves : b.LeavesNothing (.disconnect p)) :
    (b.disconnect p).data.acceptEpfd = b.data.acceptEpfd ∧ (b.disconnect p).data.epfd = b.data.epfd ∧
      (b.disconnect p).data.channelMap = b.data.channelMap ∧
      (b.disconnect p).data.servers = b.data.servers := by
  rw [(b.disconnect_departs p).data, departed_of_leavesNothing leaves]
  exact ⟨rfl, rfl, rfl, rfl⟩

private theorem server_disconnect (leaves : b.LeavesNothing (.disconnect p)) (w : ℕ) :
    (b.disconnect p).data.server w = b.data.server w := by
  obtain ⟨_, _, _, servers⟩ := data_disconnect leaves
  simp only [DataChannelServer.server, servers]

private theorem client_disconnect (c : ℕ) : (b.disconnect p).client c = b.client c :=
  congrFun (b.disconnect_departs p).content c

private theorem clinetMap_disconnect (clientId : ℤ)
    (c : ℕ) : (b.disconnect p).clinetMap clientId = some c ↔
    b.clinetMap clientId = some c ∧ clientId ≠ clientIdOf (b.socket p).shFd := by
  rw [(b.disconnect_departs p).clinetMap]
  rcases eq_or_ne clientId (clientIdOf (b.socket p).shFd) with rfl | apart
  · simp
  · simp [apart]

/-- Only the connection of the client is closed. -/
private theorem files_disconnect (leaves : b.LeavesNothing (.disconnect p)) {other : ℤ} {kind : FileKind}
    (isKind : b.data.kernel.files other = some kind) (apart : other ≠ (b.socket p).fd) :
    (b.disconnect p).data.kernel.files other = some kind := by
  rw [kernel_disconnect leaves, Kernel.files_epollDel, Kernel.files_close,
    Function.update_of_ne apart, isKind]

private theorem Registry.apart_of_kind (registry : Registry b)
    (present : b.data.kernel.epoll b.epfd (b.socket p).fd = some ⟨interest, .client p⟩) {other : ℤ}
    {kind : FileKind} (isKind : b.data.kernel.files other = some kind) (ne : kind ≠ .connection) :
    other ≠ (b.socket p).fd := by
  rintro rfl
  exact ne (Option.some.inj (isKind.symm.trans (registry.served _ _ _ present).1))

private theorem Registry.served_disconnect (registry : Registry b)
    (leaves : b.LeavesNothing (.disconnect p)) (other : ℤ) (interest' : Interest) (q : ℕ)
    (isEntry : (b.disconnect p).data.kernel.epoll (b.disconnect p).epfd other =
      some ⟨interest', .client q⟩) :
    (b.disconnect p).data.kernel.files other = some .connection ∧ q < (b.disconnect p).sockets.next ∧
      ((b.disconnect p).socket q).fd = other := by
  have departs := b.disconnect_departs p
  rw [kernel_disconnect leaves, Kernel.epoll_epollDel, departs.epfd] at isEntry
  split_ifs at isEntry with ended
  rw [Kernel.epoll_close] at isEntry
  split_ifs at isEntry with closed
  obtain ⟨stillOpen, below, isFd⟩ := registry.served other interest' q isEntry
  exact ⟨files_disconnect leaves stillOpen fun same => closed (Or.inr same), departs.socketsNext ▸ below,
    (departs.sockets q).1.trans isFd⟩

private theorem Registry.connected_disconnect (registry : Registry b)
    (present : b.data.kernel.epoll b.epfd (b.socket p).fd = some ⟨interest, .client p⟩)
    (leaves : b.LeavesNothing (.disconnect p)) (clientId : ℤ) (c : ℕ)
    (isEntry : (b.disconnect p).clinetMap clientId = some c) :
    (b.disconnect p).Connected clientId ((b.disconnect p).client c).info := by
  have departs := b.disconnect_departs p
  obtain ⟨before, apart⟩ := (clinetMap_disconnect clientId c).mp isEntry
  obtain ⟨isId, interest', isServed⟩ := registry.connected clientId c before
  -- Another number means another connection, and hence another descriptor.
  have apartFd : (b.socket (b.client c).info).fd ≠ (b.socket p).fd := by
    intro same
    rw [same, present] at isServed
    cases isServed
    exact apart isId.symm
  have apartEpfd := registry.apart_of_kind present registry.instances.2 (by decide)
  rw [client_disconnect c, Connected, (departs.sockets _).1, (departs.sockets _).2]
  refine ⟨isId, interest', ?_⟩
  rw [kernel_disconnect leaves, departs.epfd, Kernel.epoll_epollDel,
    if_neg fun here => apartFd here.2, Kernel.epoll_close, if_neg (not_or.mpr ⟨apartEpfd, apartFd⟩),
    isServed]

private theorem Registry.entered_disconnect (registry : Registry b)
    (leaves : b.LeavesNothing (.disconnect p)) (key : ℤ) :
    (b.disconnect p).data.channelMap key ≠ none ↔
      ∃ clientId channelId, (b.disconnect p).HasChannel clientId channelId ∧
        key = channelKey clientId channelId := by
  rw [(data_disconnect leaves).2.2.1, registry.entered key]
  constructor
  · rintro ⟨clientId, n, ⟨c, isEntry, member⟩, same⟩
    refine ⟨clientId, n, ⟨c, (clinetMap_disconnect clientId c).mpr ⟨isEntry, ?_⟩,
      by rwa [client_disconnect c]⟩, same⟩
    rintro rfl
    have nothing := leaves c isEntry
    rw [Std.TreeMap.isEmpty_eq_false_iff_exists_mem.mpr ⟨n, member⟩] at nothing
    contradiction
  · rintro ⟨clientId, n, ⟨c, isEntry, member⟩, same⟩
    rw [client_disconnect c] at member
    exact ⟨clientId, n, ⟨c, ((clinetMap_disconnect clientId c).mp isEntry).1, member⟩, same⟩

end Leaving

/-- A client without channels leaves. -/
theorem Registry.disconnect (registry : Registry b) {p : ℕ} {fd : ℤ} {interest : Interest}
    (present : b.data.kernel.epoll b.epfd fd = some ⟨interest, .client p⟩)
    (leaves : b.LeavesNothing (.disconnect p)) : Registry (b.disconnect p) := by
  obtain ⟨_, _, rfl⟩ := registry.served fd interest p present
  have departs := b.disconnect_departs p
  obtain ⟨acceptEpfd, relayEpfd, channelMap, servers⟩ := data_disconnect leaves
  have kept : ∀ other kind, b.data.kernel.files other = some kind → kind ≠ .connection →
      (b.disconnect p).data.kernel.files other = some kind :=
    fun other kind isKind ne => files_disconnect leaves isKind (registry.apart_of_kind present isKind ne)
  refine ⟨?_, ⟨?_, ?_⟩, registry.served_disconnect leaves, ?_,
    registry.connected_disconnect present leaves, ?_, registry.entered_disconnect leaves, ?_, ?_⟩
  · rw [acceptEpfd, relayEpfd, departs.epfd]
    exact registry.epfds
  · rw [relayEpfd]
    exact kept _ _ registry.instances.1 (by decide)
  · rw [departs.epfd]
    exact kept _ _ registry.instances.2 (by decide)
  · intro clientId c isEntry
    rw [client_disconnect c, departs.clientsNext]
    exact registry.records clientId c ((clinetMap_disconnect clientId c).mp isEntry).1
  · intro clientId c n channelInfo isEntry found
    rw [client_disconnect c] at found ⊢
    exact registry.numbered clientId c n channelInfo
      ((clinetMap_disconnect clientId c).mp isEntry).1 found
  · intro key w isEntry
    rw [channelMap] at isEntry
    obtain ⟨allocated, partner, listening, partnerListening⟩ := registry.opened key w isEntry
    refine ⟨?_, ?_, ?_, ?_⟩
    · rw [servers]
      exact allocated
    · rw [server_disconnect leaves, servers]
      exact partner
    · rw [server_disconnect leaves]
      exact kept _ _ listening (by decide)
    · rw [server_disconnect leaves, server_disconnect leaves]
      exact kept _ _ partnerListening (by decide)
  · intro key key' w w' isEntry isEntry'
    rw [channelMap] at isEntry isEntry'
    rw [server_disconnect leaves, server_disconnect leaves]
    exact registry.apart key key' w w' isEntry isEntry'

/-- The invariant is kept as long as no client with a channel leaves. -/
theorem Registry.step {event : BusinessEvent} (registry : Registry b) (step : KeepingStep b event d) :
    Registry d := by
  obtain ⟨⟨enabled, rfl⟩, leaves⟩ := step
  cases event with
  | takeIdx => exact { registry with
      opened := fun key w isEntry => { registry.opened key w isEntry with } }
  | connect fd => exact registry.connect fd
  | create clientId addresses calls => exact registry.createChannelServer clientId addresses calls
  | disconnect p =>
    obtain ⟨_, _, present⟩ := enabled
    exact registry.disconnect present leaves

/-- The two registries name the same channels, all of connected clients and each under a key and a
number of its own, and the sockets of every entry listen. -/
structure RegistriesAgree (b : BusinessServer) : Prop where
  connected : ∀ clientId channelId, b.HasChannel clientId channelId → ∃ p, b.Connected clientId p
  same : ∀ clientId channelId, IsInt channelId →
    (b.data.channelMap (channelKey clientId channelId) ≠ none ↔ b.HasChannel clientId channelId)
  keys : ∀ clientId channelId clientId' channelId', b.HasChannel clientId channelId →
    b.HasChannel clientId' channelId' → channelKey clientId channelId = channelKey clientId' channelId' →
      clientId = clientId' ∧ channelId = channelId'
  ids : ∀ clientId c (n n' : ℤ) channelInfo channelInfo', b.clinetMap clientId = some c →
    (b.client c).channelMap[n]? = some channelInfo → (b.client c).channelMap[n']? = some channelInfo' →
      channelInfo.channelId = channelInfo'.channelId → n = n'
  listening : ∀ key w, b.data.channelMap key = some w →
    b.data.kernel.files (b.data.server w).fd = some .listening ∧
      b.data.kernel.files (b.data.server (b.data.server w).removte).fd = some .listening

/-- After every run in which no client with a channel leaves, the registries agree. -/
theorem registries_agree {b₀ : BusinessServer} {events : List BusinessEvent} (started : Started b₀)
    (run : Run KeepingStep b₀ events b) : RegistriesAgree b := by
  have registry : Registry b :=
    run.invariant Registry (fun _ _ _ registry step => registry.step step) started.registry
  refine ⟨?_, fun clientId channelId range => ⟨fun isEntry => ?_, fun has => ?_⟩, ?_, ?_,
    fun key w isEntry => ?_⟩
  · rintro clientId _ ⟨c, present, _⟩
    exact ⟨_, registry.connected clientId c present⟩
  · obtain ⟨clientId', channelId', has, same⟩ := (registry.entered _).mp isEntry
    obtain ⟨rfl, rfl⟩ := channelKey_injective range (registry.isInt has).2 same
    exact has
  · exact (registry.entered _).mpr ⟨clientId, channelId, has, rfl⟩
  · intro clientId channelId clientId' channelId' has has'
    exact channelKey_injective (registry.isInt has).2 (registry.isInt has').2
  · intro clientId c n n' channelInfo channelInfo' present found found' sameId
    rw [← (registry.numbered clientId c n channelInfo present found).1, sameId,
      (registry.numbered clientId c n' channelInfo' present found').1]
  · have opened := registry.opened key w isEntry
    exact ⟨opened.listening, opened.partnerListening⟩

/-- A system with the epoll sets 3, 4 and 11 and a listening socket for clients. -/
def programKernel : Kernel EventPtr where
  files fd := if fd = 3 ∨ fd = 4 ∨ fd = 11 then some .epoll else if fd = 10 then some .listening else none
  epoll _ _ := none
  received _ := []
  sent _ := []
  bounded fd isOpen := by
    by_cases known : fd = 3 ∨ fd = 4 ∨ fd = 11
    · omega
    · by_cases server : fd = 10
      · omega
      · simp [known, server] at isOpen
  registered _ _ present := absurd rfl present

/-- A program that has just been started. -/
def freshProgram : BusinessServer := .initial (.initial programKernel 4 3 2) 10 11

theorem started_freshProgram : Started freshProgram :=
  ⟨rfl, ⟨rfl, by decide, rfl, fun _ => rfl, fun _ => rfl⟩, by decide, rfl, fun _ => rfl⟩

/-- A client connects and a channel is created for it. -/
def oneChannelEvents : List BusinessEvent :=
  [.connect 12, .create 2 {} ⟨⟨5, true, true, true⟩, ⟨6, true, true, true⟩⟩]

def oneChannel : BusinessServer := oneChannelEvents.foldl apply freshProgram

theorem run_oneChannel : Run KeepingStep freshProgram oneChannelEvents oneChannel :=
  .cons ⟨⟨trivial, rfl⟩, trivial⟩ (.cons ⟨⟨trivial, rfl⟩, trivial⟩ .start)

theorem oneChannel_agrees : RegistriesAgree oneChannel :=
  registries_agree started_freshProgram run_oneChannel

/-- The client leaves, and its channel stays in the map of the data channel server. -/
theorem departure_leaves_entry : ¬ ∀ (events : List BusinessEvent) (b : BusinessServer),
    Run BusinessStep freshProgram events b → RegistriesAgree b := by
  intro claimed
  have run : Run BusinessStep freshProgram oneChannelEvents oneChannel :=
    run_oneChannel.mono fun _ _ _ step => step.1
  have served : oneChannel.Enabled (.disconnect 1) := ⟨12, .epollIn, by decide +kernel⟩
  have agree := claimed _ (oneChannel.apply (.disconnect 1)) (.next run ⟨served, rfl⟩)
  have entered : (oneChannel.apply (.disconnect 1)).data.channelMap (channelKey 2 1) ≠ none := by
    decide +kernel
  obtain ⟨c, present, _⟩ := (agree.same 2 1 ⟨by decide, by decide⟩).mp entered
  have gone : (oneChannel.apply (.disconnect 1)).clinetMap 2 = none := by decide +kernel
  rw [gone] at present
  contradiction

end BusinessServer

end LinuxZero.Vpn
