import Gratia.Core.Reference
import Gratia.Governance.Identifiers

/-!
# Governance — polls

`gratia-governance/src/polling.rs`: polls with their options, and one vote a node.  The great-circle
distance of `is_within_radius` is a parameter.  A panic is `none`: an expiry out of range, a
collection that would grow past `isize::MAX` elements, an option without a count.  A duration is a
`u64` that `create_poll` takes for an `i64`, so that the largest ones are negative.
-/

namespace Gratia

open Support
open Std (ExtTreeMap ExtTreeSet)

/-! ### The store -/

structure Poll where
  id : Bytes32
  creator : Address
  question : String
  options : List String
  createdAt : DateTime
  expiresAt : DateTime
  votes : List UInt64
  totalVoters : UInt64
  geographicFilter : Option GeographicFilter
  creationFee : Lux

structure PollVoteRecord where
  voter : NodeId
  optionIndex : UInt32
  timestamp : DateTime
deriving DecidableEq

structure PollStore where
  polls : ExtTreeMap Bytes32 Poll := ∅
  voted : ExtTreeMap Bytes32 (ExtTreeSet NodeId) := ∅
  records : ExtTreeMap Bytes32 (List PollVoteRecord) := ∅
  nextPollNonce : UInt64 := 0

/-- The bytes of `b"gratia-poll-v1:"`. -/
def pollDomain : Bytes := [103, 114, 97, 116, 105, 97, 45, 112, 111, 108, 108, 45, 118, 49, 58]

def pollIdInput (creator : Address) (now : DateTime) (nonce : UInt64) : Bytes :=
  pollDomain ++ creator.bytes.bytes ++ toLeBytes now.secs.toUInt64 ++ toLeBytes nonce

inductive PollCall where
  | createPoll (creator : Address) (question : String) (options : List String)
      (durationSecs : UInt64) (geographicFilter : Option GeographicFilter) (creatorBalance : Lux)
      (now : DateTime)
  | castPollVote (pollId : Bytes32) (voter : NodeId) (optionIndex : UInt32) (hasValidPol : Bool)
      (voterLocation : Option GeoLocation) (now : DateTime)

namespace PollStore

def new : PollStore := {}

variable (P : Platform) (isWithinRadius : GeoLocation → GeographicFilter → Bool)
  (config : GovernanceConfig)

def getRecords (s : PollStore) (pollId : Bytes32) : List PollVoteRecord :=
  s.records[pollId]?.getD []

def getVoters (s : PollStore) (pollId : Bytes32) : ExtTreeSet NodeId := s.voted[pollId]?.getD ∅

def hasVoted (s : PollStore) (pollId : Bytes32) (nodeId : NodeId) : Bool :=
  nodeId ∈ s.getVoters pollId

def generateId (s : PollStore) (creator : Address) (now : DateTime) : Bytes32 × PollStore :=
  (P.sha256 (pollIdInput creator now s.nextPollNonce),
    { s with nextPollNonce := s.nextPollNonce + 1 })

def checkPoll (question : String) (options : List String) (creatorBalance : Lux) :
    Except GovernanceError Unit :=
  if question = "" then .error .emptyQuestion
  else if options.length < 2 then .error .tooFewOptions
  else if creatorBalance < config.pollCreationFee then
    .error (.insufficientBalance creatorBalance config.pollCreationFee)
  else .ok ()

def createPoll (s : PollStore) (creator : Address) (question : String) (options : List String)
    (durationSecs : UInt64) (geographicFilter : Option GeographicFilter) (creatorBalance : Lux)
    (now : DateTime) : Option (Except GovernanceError Bytes32 × PollStore) :=
  match checkPoll config question options creatorBalance with
  | .error e => some (.error e, s)
  | .ok () => do
    let (id, s) := s.generateId P creator now
    let expiresAt ← now.addSeconds durationSecs.toInt64
    let polls ← insertEntry s.polls id
      { id := id, creator := creator, question := question, options := options,
        createdAt := now, expiresAt := expiresAt, votes := List.replicate options.length 0,
        totalVoters := 0, geographicFilter := geographicFilter,
        creationFee := config.pollCreationFee }
    some (.ok id, { s with polls := polls })

/-- A poll's geographic filter keeps a voter out. -/
def isOutside (filter : Option GeographicFilter) (voterLocation : Option GeoLocation) : Bool :=
  match filter, voterLocation with
  | none, _ => false
  | some _, none => true
  | some filter, some location => !isWithinRadius location filter

def checkPollVote (s : PollStore) (pollId : Bytes32) (voter : NodeId) (optionIndex : UInt32)
    (hasValidPol : Bool) (voterLocation : Option GeoLocation) (now : DateTime) :
    Except GovernanceError Poll :=
  if !hasValidPol then .error .noValidProofOfLife
  else
    match s.polls[pollId]? with
    | none => .error (.pollNotFound pollId.hexEncode)
    | some poll =>
      if now ≥ poll.expiresAt then .error .pollExpired
      else if optionIndex.toNat ≥ poll.options.length then
        .error (.invalidOptionIndex optionIndex poll.options.length)
      else if isOutside isWithinRadius poll.geographicFilter voterLocation then
        .error .outsideGeographicFilter
      else if s.hasVoted pollId voter then .error (.alreadyVotedPoll voter)
      else .ok poll

def castPollVote (s : PollStore) (pollId : Bytes32) (voter : NodeId) (optionIndex : UInt32)
    (hasValidPol : Bool) (voterLocation : Option GeoLocation) (now : DateTime) :
    Option (Except GovernanceError Unit × PollStore) :=
  match s.checkPollVote isWithinRadius pollId voter optionIndex hasValidPol voterLocation now with
  | .error e => some (.error e, s)
  | .ok poll =>
    if (s.getRecords pollId).length < isizeMax then do
      let count ← poll.votes[optionIndex.toNat]?
      some (.ok (), { s with
        voted := s.voted.insert pollId ((s.getVoters pollId).insert voter)
        records :=
          s.records.insert pollId (s.getRecords pollId ++ [⟨voter, optionIndex, now⟩])
        polls := s.polls.insert pollId
          { poll with
            votes := poll.votes.set optionIndex.toNat (count + 1)
            totalVoters := poll.totalVoters + 1 } })
    else none

def step (s : PollStore) : PollCall → Option PollStore
  | .createPoll creator question options duration filter balance now =>
    (s.createPoll P config creator question options duration filter balance now).map Prod.snd
  | .castPollVote id voter index valid location now =>
    (s.castPollVote isWithinRadius id voter index valid location now).map Prod.snd

end PollStore

/-! ### Durations -/

namespace DateTime

/-- `e` is `d` seconds after `t`: a leap second that is left counts as the second before it. -/
def IsAfter (t e : DateTime) (d : ℕ) : Prop :=
  e.secs.toInt = t.secs.toInt + d ∧
    e.nanos = if 1_000_000_000 ≤ t.nanos ∧ d ≠ 0 then t.nanos - 1_000_000_000 else t.nanos

/-- The sum with a number of seconds is in the range of `Duration` and of `DateTime`. -/
def InRange (t : DateTime) (d : ℕ) : Prop :=
  d ≤ maxDurationSecs ∧ minSecs ≤ t.secs.toInt + d ∧ t.secs.toInt + d ≤ maxSecs

instance (t : DateTime) (d : ℕ) : Decidable (t.InRange d) := inferInstanceAs (Decidable (_ ∧ _))

theorem toInt_toInt64 (d : UInt64) :
    d.toInt64.toInt = if d.toNat < 2 ^ 63 then (d.toNat : ℤ) else d.toNat - 2 ^ 64 := by
  rw [← Int64.toInt_toBitVec, UInt64.toBitVec_toInt64, BitVec.toInt_eq_toNat_cond,
    UInt64.toNat_toBitVec]
  split <;> split <;> omega

theorem toInt_ofInt_of_inRange {secs : ℤ} (hmin : minSecs ≤ secs) (hmax : secs ≤ maxSecs) :
    (Int64.ofInt secs).toInt = secs := by
  unfold minSecs at hmin
  unfold maxSecs at hmax
  refine Int64.toInt_ofInt_of_le ?_ ?_ <;> omega

theorem toInt_secs_of_addSeconds {t e : DateTime} {n : Int64} (h : t.addSeconds n = some e) :
    |n.toInt| ≤ maxDurationSecs ∧ minSecs ≤ e.secs.toInt ∧ e.secs.toInt ≤ maxSecs ∧
      (e.secs.toInt = t.secs.toInt + n.toInt ∨ e.secs.toInt = t.secs.toInt + n.toInt + 1) := by
  obtain ⟨⟨hdur, hmin, hmax⟩, he⟩ := Option.ite_none_right_eq_some.mp h
  cases he
  rw [toInt_ofInt_of_inRange hmin hmax]
  refine ⟨hdur, hmin, hmax, ?_⟩
  split
  · exact .inr rfl
  · exact .inl (Int.add_zero _)

/-- **A duration cast to `i64` gives the time asked for exactly if it is in range.** -/
theorem addSeconds_isAfter_iff (t : DateTime) (d : UInt64) :
    (∃ e, t.addSeconds d.toInt64 = some e ∧ t.IsAfter e d.toNat) ↔ t.InRange d.toNat := by
  have hword := toInt_toInt64 d
  constructor
  · rintro ⟨e, he, hsecs, -⟩
    obtain ⟨hdur, hmin, hmax, hsum⟩ := toInt_secs_of_addSeconds he
    have hsmall : d.toNat < 2 ^ 63 := by
      by_contra hlarge
      rw [if_neg hlarge] at hword
      omega
    rw [hword, if_pos hsmall] at hdur
    exact ⟨(le_abs_self _).trans hdur, hsecs ▸ hmin, hsecs ▸ hmax⟩
  · rintro ⟨hdur, hmin, hmax⟩
    have hsmall : d.toNat < 2 ^ 63 := by
      unfold maxDurationSecs at hdur
      omega
    rw [if_pos hsmall] at hword
    refine ⟨⟨Int64.ofInt (t.secs.toInt + d.toNat),
      if 1_000_000_000 ≤ t.nanos ∧ d.toNat ≠ 0 then t.nanos - 1_000_000_000 else t.nanos⟩,
      ?_, ?_, rfl⟩
    · have hpos : ¬ ((d.toNat : ℤ) < 0) := by omega
      simp only [addSeconds, hword, hpos, and_false, if_false, Int.add_zero, abs_of_nonneg,
        Int.natCast_nonneg, hdur, hmin, hmax, and_self, if_true, ge_iff_le, ne_eq,
        Int.natCast_eq_zero]
    · exact toInt_ofInt_of_inRange hmin hmax

end DateTime

/-! ### Tallies -/

/-- The counts of a poll, with its recorded votes and its voters: each vote is that of another
node, cast before the expiry on an option there is. -/
structure Poll.Tallies (poll : Poll) (records : List PollVoteRecord) (voters : ExtTreeSet NodeId) :
    Prop where
  counts : (poll.votes.map UInt64.toNat).sum = poll.totalVoters.toNat
  total : poll.totalVoters.toNat = records.length
  distinct : (records.map PollVoteRecord.voter).Nodup
  voters_iff : ∀ v, v ∈ voters ↔ v ∈ records.map PollVoteRecord.voter
  voters_size : voters.size = records.length
  valid : ∀ r ∈ records, r.timestamp < poll.expiresAt ∧ r.optionIndex.toNat < poll.options.length
  options : poll.votes.length = poll.options.length

theorem sum_set_succ {votes : List UInt64} {i : ℕ} {count : UInt64} (h : votes[i]? = some count)
    (hlt : count.toNat + 1 < 2 ^ 64) : ((votes.set i (count + 1)).map UInt64.toNat).sum =
      (votes.map UInt64.toNat).sum + 1 := by
  induction votes generalizing i with
  | nil => cases h
  | cons v votes ih =>
    cases i with
    | zero =>
      obtain rfl : v = count := Option.some.inj h
      have hadd : (v + 1).toNat = v.toNat + 1 := toNat_add_of_lt hlt
      simp only [List.set_cons_zero, List.map_cons, List.sum_cons, hadd]
      omega
    | succ i =>
      simp only [List.set_cons_succ, List.map_cons, List.sum_cons, ih h]
      omega

theorem Poll.Tallies.vote {poll : Poll} {records : List PollVoteRecord}
    {voters : ExtTreeSet NodeId} (h : poll.Tallies records voters) {r : PollVoteRecord}
    {count : UInt64} (hcount : poll.votes[r.optionIndex.toNat]? = some count)
    (hlen : records.length < isizeMax) (hnew : r.voter ∉ voters)
    (htime : r.timestamp < poll.expiresAt) (hindex : r.optionIndex.toNat < poll.options.length) :
    ({ poll with
        votes := poll.votes.set r.optionIndex.toNat (count + 1)
        totalVoters := poll.totalVoters + 1 } : Poll).Tallies (records ++ [r])
      (voters.insert r.voter) := by
  have hle : count.toNat ≤ (poll.votes.map UInt64.toNat).sum :=
    List.le_sum_of_mem (List.mem_map_of_mem (List.mem_of_getElem? hcount))
  rw [h.counts, h.total] at hle
  unfold isizeMax at hlen
  have htotal : (poll.totalVoters + 1).toNat = records.length + 1 := by
    have hfits : poll.totalVoters.toNat + (1 : UInt64).toNat < 2 ^ 64 := by
      rw [h.total, UInt64.toNat_one]
      omega
    rw [toNat_add_of_lt hfits, h.total, UInt64.toNat_one]
  have hmem : r.voter ∉ records.map PollVoteRecord.voter := mt (h.voters_iff _).mpr hnew
  refine ⟨?_, ?_, ?_, ?_, ?_, ?_, ?_⟩
  · rw [sum_set_succ hcount (by omega), h.counts, h.total, htotal]
  · rw [htotal, List.length_append, List.length_singleton]
  · rw [List.map_append, List.map_singleton, List.nodup_append]
    simpa [h.distinct] using hmem
  · intro v
    rw [ExtTreeSet.mem_insert, h.voters_iff, Std.compare_eq_iff_eq, List.map_append,
      List.mem_append, or_comm, List.map_singleton, List.mem_singleton, eq_comm]
  · rw [ExtTreeSet.size_insert, if_neg (by simpa using hnew), h.voters_size, List.length_append,
      List.length_singleton]
  · intro r' hr'
    rcases List.mem_append.mp hr' with hr' | hr'
    · exact h.valid r' hr'
    · rw [List.mem_singleton.mp hr']
      exact ⟨htime, hindex⟩
  · rw [List.length_set, h.options]

namespace PollStore

variable {P : Platform} {isWithinRadius : GeoLocation → GeographicFilter → Bool}
  {config : GovernanceConfig} {S : Set Bytes} {s s' : PollStore} {c : PollCall}

def Tallied (s : PollStore) : Prop :=
  ∀ (id : Bytes32) poll, s.polls[id]? = some poll → poll.Tallies (s.getRecords id) (s.getVoters id)

def Keeps (s s' : PollStore) : Prop :=
  ∀ (id : Bytes32) poll, s.polls[id]? = some poll → ∃ poll', s'.polls[id]? = some poll' ∧
    poll'.options = poll.options ∧ poll'.createdAt = poll.createdAt ∧
    poll'.expiresAt = poll.expiresAt

variable (P config) in
def ExpiresAsAsked (s s' : PollStore) : PollCall → Prop
  | .createPoll creator question options duration filter balance now => ∀ id,
      s.createPoll P config creator question options duration filter balance now =
        some (.ok id, s') →
      ∃ poll, s'.polls[id]? = some poll ∧ poll.createdAt = now ∧
        now.IsAfter poll.expiresAt duration.toNat
  | .castPollVote .. => True

variable (P isWithinRadius config) in
/-- The call does not panic, and what it leaves is exact. -/
def Exact (s : PollStore) (c : PollCall) : Prop :=
  ∃ s', s.step P isWithinRadius config c = some s' ∧ s'.Tallied ∧ s.Keeps s' ∧
    ExpiresAsAsked P config s s' c

variable (isWithinRadius config) in
/-- A poll that passes the checks has a duration in range, and there is room for it; and there is
room for a vote that passes them. -/
def Fits (s : PollStore) : PollCall → Prop
  | .createPoll _ question options duration _ balance now =>
    checkPoll config question options balance = .ok () →
      now.InRange duration.toNat ∧ s.polls.size < isizeMax
  | .castPollVote id voter index valid location now => ∀ poll,
      s.checkPollVote isWithinRadius id voter index valid location now = .ok poll →
        (s.getRecords id).length < isizeMax

instance (s : PollStore) : ∀ c, Decidable (s.Fits isWithinRadius config c)
  | .createPoll .. => inferInstanceAs (Decidable (_ = _ → _ ∧ _))
  | .castPollVote id voter index valid location now =>
    match hcheck : s.checkPollVote isWithinRadius id voter index valid location now with
    | .error _ => .isTrue fun _ hok => by rw [hcheck] at hok; cases hok
    | .ok poll => decidable_of_iff ((s.getRecords id).length < isizeMax)
        ⟨fun hlen _ _ => hlen, fun hfits => hfits poll hcheck⟩

variable (config) in
def idInput (s : PollStore) : PollCall → Option Bytes
  | .createPoll creator question options _ _ balance now =>
    (checkPoll config question options balance).toOption.map fun _ =>
      pollIdInput creator now s.nextPollNonce
  | .castPollVote .. => none

/-! ### What a call does -/

variable (config) in
def newPoll (id : Bytes32) (creator : Address) (question : String) (options : List String)
    (filter : Option GeographicFilter) (now expiresAt : DateTime) : Poll :=
  { id := id, creator := creator, question := question, options := options, createdAt := now,
    expiresAt := expiresAt, votes := List.replicate options.length 0, totalVoters := 0,
    geographicFilter := filter, creationFee := config.pollCreationFee }

def withPoll (s : PollStore) (id : Bytes32) (poll : Poll) : PollStore :=
  { s with polls := s.polls.insert id poll, nextPollNonce := s.nextPollNonce + 1 }

def withVote (s : PollStore) (id : Bytes32) (poll : Poll) (count : UInt64) (r : PollVoteRecord) :
    PollStore :=
  { s with
    voted := s.voted.insert id ((s.getVoters id).insert r.voter)
    records := s.records.insert id (s.getRecords id ++ [r])
    polls := s.polls.insert id
      { poll with
        votes := poll.votes.set r.optionIndex.toNat (count + 1)
        totalVoters := poll.totalVoters + 1 } }

section Create

variable {creator : Address} {question : String} {options : List String} {balance : Lux}
  {now : DateTime}

theorem createPoll_of_ok (duration : UInt64) (filter : Option GeographicFilter)
    (h : checkPoll config question options balance = .ok ()) {id : Bytes32}
    (hid : P.sha256 (pollIdInput creator now s.nextPollNonce) = id) :
    s.createPoll P config creator question options duration filter balance now =
      (now.addSeconds duration.toInt64).bind fun expiresAt =>
        if s.polls.size < isizeMax ∨ id ∈ s.polls then
          some (.ok id, s.withPoll id (newPoll config id creator question options filter now
            expiresAt))
        else none := by
  subst hid
  simp only [createPoll, h, generateId]
  refine Option.bind_congr fun expiresAt _ => ?_
  unfold insertEntry
  split <;> rfl

end Create

section Vote

variable {id : Bytes32} {voter : NodeId} {index : UInt32} {valid : Bool}
  {location : Option GeoLocation} {now : DateTime} {poll : Poll}

theorem checkPollVote_ok
    (h : s.checkPollVote isWithinRadius id voter index valid location now = .ok poll) :
    s.polls[id]? = some poll ∧ now < poll.expiresAt ∧ index.toNat < poll.options.length ∧
      voter ∉ s.getVoters id := by
  unfold checkPollVote at h
  split at h
  · cases h
  · split at h
    · cases h
    · next poll' hpoll =>
        split_ifs at h with hexpired hindex houtside hvoted
        cases h
        refine ⟨hpoll, not_le.mp hexpired, not_le.mp hindex, ?_⟩
        simpa [hasVoted] using hvoted

theorem castPollVote_of_ok
    (h : s.checkPollVote isWithinRadius id voter index valid location now = .ok poll) :
    s.castPollVote isWithinRadius id voter index valid location now =
      if (s.getRecords id).length < isizeMax then
        poll.votes[index.toNat]?.map fun count =>
          (.ok (), s.withVote id poll count ⟨voter, index, now⟩)
      else none := by
  simp only [castPollVote, h]
  split
  · rw [Option.map_eq_bind]
    rfl
  · rfl

end Vote

/-! ### The invariant of a run without collisions -/

/-- Every identifier is the hash of a string of `S` with an earlier number, the number counts the
polls, tallies are exact and only polls have votes. -/
structure Sound (P : Platform) (S : Set Bytes) (s : PollStore) : Prop where
  issued : ∀ id ∈ s.polls, ∃ creator now n, n < s.nextPollNonce ∧ pollIdInput creator now n ∈ S ∧
    id = P.sha256 (pollIdInput creator now n)
  counted : s.nextPollNonce.toNat = s.polls.size
  room : s.polls.size ≤ isizeMax
  tallied : s.Tallied
  voteless : ∀ id, id ∉ s.polls → s.getRecords id = [] ∧ s.getVoters id = ∅

theorem sound_new : Sound P S new := by
  refine ⟨fun id hid => ?_, rfl, Nat.zero_le _, fun id poll hpoll => ?_, fun _ _ => ⟨rfl, rfl⟩⟩
  · simp [new] at hid
  · cases hpoll

variable {creator : Address} {now : DateTime}

theorem nonce_eq_of_pollIdInput_eq {creator' : Address} {now' : DateTime} {n n' : UInt64}
    (h : pollIdInput creator now n = pollIdInput creator' now' n') : n = n' :=
  toLeBytes_injective (List.append_inj' h (by simp [toLeBytes])).2

/-- **A new identifier is not taken.** -/
theorem Sound.not_taken (h : Sound P S s) (hinj : S.InjOn P.sha256)
    (hS : pollIdInput creator now s.nextPollNonce ∈ S) :
    P.sha256 (pollIdInput creator now s.nextPollNonce) ∉ s.polls := by
  intro hmem
  obtain ⟨creator', now', n, hn, hmem', heq⟩ := h.issued _ hmem
  rw [← nonce_eq_of_pollIdInput_eq (hinj hS hmem' heq)] at hn
  exact absurd hn (UInt64.lt_irrefl _)

variable {id : Bytes32}

theorem tallies_newPoll {question : String} {options : List String}
    {filter : Option GeographicFilter} {expiresAt : DateTime} :
    (newPoll config id creator question options filter now expiresAt).Tallies [] ∅ where
  counts := by simp [newPoll]
  total := rfl
  distinct := List.nodup_nil
  voters_iff := by simp
  voters_size := rfl
  valid := by simp
  options := by simp [newPoll]

variable {poll : Poll}

theorem Sound.withPoll (h : Sound P S s)
    (hid : P.sha256 (pollIdInput creator now s.nextPollNonce) = id)
    (hS : pollIdInput creator now s.nextPollNonce ∈ S) (hfree : id ∉ s.polls)
    (hroom : s.polls.size < isizeMax) (htallies : poll.Tallies [] ∅) :
    Sound P S (s.withPoll id poll) := by
  have hnonce : (s.nextPollNonce + 1).toNat = s.nextPollNonce.toNat + 1 := by
    refine toNat_add_of_lt ?_
    unfold isizeMax at hroom
    rw [h.counted, UInt64.toNat_one]
    omega
  have hlt : ∀ n, n ≤ s.nextPollNonce → n < s.nextPollNonce + 1 := by
    intro n hn
    rw [UInt64.lt_iff_toNat_lt, hnonce]
    exact Nat.lt_succ_of_le (UInt64.le_iff_toNat_le.mp hn)
  have hsize : (s.withPoll id poll).polls.size = s.polls.size + 1 :=
    GovernanceManager.size_insert_of_notMem hfree
  refine ⟨fun id' hid' => ?_, ?_, hsize ▸ hroom, fun id' poll' hpoll' => ?_, fun id' hid' => ?_⟩
  · rcases mem_insert_iff.mp hid' with rfl | hold
    · exact ⟨creator, now, _, hlt _ (UInt64.le_refl _), hS, hid.symm⟩
    · obtain ⟨creator', now', n, hn, hrest⟩ := h.issued id' hold
      exact ⟨creator', now', n, hlt n (UInt64.le_of_lt hn), hrest⟩
  · rw [hsize, ← h.counted]
    exact hnonce
  · by_cases heq : id = id'
    · subst heq
      obtain ⟨hrecords, hvoters⟩ := h.voteless id hfree
      have hsame : poll = poll' :=
        Option.some.inj ((getElem?_insert_self' _ _ _).symm.trans hpoll')
      rw [← hsame, show (s.withPoll id poll).getRecords id = [] from hrecords,
        show (s.withPoll id poll).getVoters id = ∅ from hvoters]
      exact htallies
    · exact h.tallied id' poll' ((getElem?_insert_ne _ _ heq).symm.trans hpoll')
  · exact h.voteless id' fun hmem => hid' (mem_insert_iff.mpr (.inr hmem))

theorem Sound.withVote (h : Sound P S s) {count : UInt64} {r : PollVoteRecord}
    (hpoll : s.polls[id]? = some poll) (htallies : ({ poll with
      votes := poll.votes.set r.optionIndex.toNat (count + 1)
      totalVoters := poll.totalVoters + 1 } : Poll).Tallies (s.getRecords id ++ [r])
      ((s.getVoters id).insert r.voter)) : Sound P S (s.withVote id poll count r) := by
  have hkeys : ∀ id', id' ∈ (s.withVote id poll count r).polls ↔ id' ∈ s.polls := fun id' =>
    mem_insert_iff.trans
      (or_iff_right_of_imp fun heq => heq ▸ mem_of_getElem? hpoll)
  have hsize := size_eq_of_mem_iff hkeys
  have hother : ∀ id', id ≠ id' → (s.withVote id poll count r).getRecords id' = s.getRecords id' ∧
      (s.withVote id poll count r).getVoters id' = s.getVoters id' := by
    intro id' hne
    simp only [getRecords, getVoters, PollStore.withVote, getElem?_insert_ne _ _ hne,
      and_self]
  refine ⟨fun id' hid' => h.issued id' ((hkeys id').mp hid'), ?_, hsize ▸ h.room,
    fun id' poll' hpoll' => ?_, fun id' hid' => ?_⟩
  · rw [hsize]
    exact h.counted
  · by_cases heq : id = id'
    · subst heq
      have hsame := Option.some.inj ((getElem?_insert_self' _ _ _).symm.trans hpoll')
      rw [← hsame]
      simpa [getRecords, getVoters, PollStore.withVote] using htallies
    · rw [(hother id' heq).1, (hother id' heq).2]
      exact h.tallied id' poll' ((getElem?_insert_ne _ _ heq).symm.trans hpoll')
  · rw [hkeys] at hid'
    have hne : id ≠ id' := fun heq => hid' (heq ▸ mem_of_getElem? hpoll)
    rw [(hother id' hne).1, (hother id' hne).2]
    exact h.voteless id' hid'

theorem keeps_refl (s : PollStore) : s.Keeps s := fun _ poll hpoll => ⟨poll, hpoll, rfl, rfl, rfl⟩

theorem keeps_withPoll (hfree : id ∉ s.polls) : s.Keeps (s.withPoll id poll) := by
  intro id' poll' hpoll'
  have hne : id ≠ id' := fun heq => hfree (heq ▸ mem_of_getElem? hpoll')
  exact ⟨poll', (getElem?_insert_ne _ _ hne).trans hpoll', rfl, rfl, rfl⟩

theorem keeps_withVote {count : UInt64} {r : PollVoteRecord} (hpoll : s.polls[id]? = some poll) :
    s.Keeps (s.withVote id poll count r) := by
  intro id' poll' hpoll'
  by_cases heq : id = id'
  · subst heq
    rw [hpoll] at hpoll'
    cases hpoll'
    exact ⟨_, getElem?_insert_self' _ _ _, rfl, rfl, rfl⟩
  · exact ⟨poll', (getElem?_insert_ne _ _ heq).trans hpoll', rfl, rfl, rfl⟩

/-! ### A call, then a run -/

def HashesIn (config : GovernanceConfig) (S : Set Bytes) (s : PollStore) (c : PollCall) : Prop :=
  ∀ x ∈ s.idInput config c, x ∈ S

/-- A call that fits gives what it should; one that gives a store leaves it sound, and fits if the
poll expires as asked. -/
structure Outcome (P : Platform) (isWithinRadius : GeoLocation → GeographicFilter → Bool)
    (config : GovernanceConfig) (S : Set Bytes) (s : PollStore) (c : PollCall) : Prop where
  fits : s.Fits isWithinRadius config c → ∃ s', s.step P isWithinRadius config c = some s' ∧
    s.Keeps s' ∧ ExpiresAsAsked P config s s' c
  step : ∀ s', s.step P isWithinRadius config c = some s' →
    Sound P S s' ∧ (ExpiresAsAsked P config s s' c → s.Fits isWithinRadius config c)

section Outcome

variable (h : Sound P S s)

include h

theorem Sound.outcome_refused (hstep : s.step P isWithinRadius config c = some s)
    (hexpires : ExpiresAsAsked P config s s c) (hfits : s.Fits isWithinRadius config c) :
    Outcome P isWithinRadius config S s c where
  fits _ := ⟨s, hstep, keeps_refl s, hexpires⟩
  step s' hs' := by
    obtain rfl := Option.some.inj (hstep.symm.trans hs')
    exact ⟨h, fun _ => hfits⟩

theorem Sound.outcome_createPoll {creator : Address} {question : String} {options : List String}
    {duration : UInt64} {filter : Option GeographicFilter} {balance : Lux} {now : DateTime}
    (hinj : S.InjOn P.sha256) (hS : HashesIn config S s
      (.createPoll creator question options duration filter balance now)) :
    Outcome P isWithinRadius config S s
      (.createPoll creator question options duration filter balance now) := by
  cases hcheck : checkPoll config question options balance with
  | error e =>
    have heq : s.createPoll P config creator question options duration filter balance now =
        some (.error e, s) := by
      simp only [createPoll, hcheck]
    refine h.outcome_refused (by rw [PollStore.step, heq]; rfl) (fun id hcreate => ?_) fun hok => ?_
    · rw [heq] at hcreate
      cases hcreate
    · rw [hcheck] at hok
      cases hok
  | ok u =>
    have hmem := hS _ (by rw [idInput, hcheck]; rfl)
    obtain ⟨id, hid⟩ : ∃ id, P.sha256 (pollIdInput creator now s.nextPollNonce) = id := ⟨_, rfl⟩
    have hfree : id ∉ s.polls := hid ▸ h.not_taken hinj hmem
    have heq := createPoll_of_ok duration filter hcheck hid
    constructor
    · intro hfits
      obtain ⟨hrange, hroom⟩ := hfits hcheck
      obtain ⟨expiresAt, hsum, hafter⟩ := (now.addSeconds_isAfter_iff duration).mpr hrange
      rw [hsum, Option.bind_some, if_pos (.inl hroom)] at heq
      refine ⟨_, by rw [PollStore.step, heq, Option.map_some], keeps_withPoll hfree, ?_⟩
      intro id' hcreate
      rw [heq] at hcreate
      cases hcreate
      exact ⟨_, getElem?_insert_self' _ _ _, rfl, hafter⟩
    · intro s' hstep
      obtain ⟨⟨r, s''⟩, hcreate, rfl⟩ := Option.map_eq_some_iff.mp hstep
      have hcreated := hcreate
      rw [heq] at hcreate
      obtain ⟨expiresAt, hsum, hcreate⟩ := Option.bind_eq_some_iff.mp hcreate
      obtain ⟨hroom, hcreate⟩ := Option.ite_none_right_eq_some.mp hcreate
      replace hroom := hroom.resolve_right hfree
      cases hcreate
      refine ⟨h.withPoll hid hmem hfree hroom tallies_newPoll, fun hexpires _ => ⟨?_, hroom⟩⟩
      obtain ⟨poll, hpoll, -, hafter⟩ := hexpires id hcreated
      rw [← Option.some.inj ((getElem?_insert_self' _ _ _).symm.trans hpoll)] at hafter
      exact (now.addSeconds_isAfter_iff duration).mp ⟨expiresAt, hsum, hafter⟩

theorem Sound.outcome_castPollVote {id : Bytes32} {voter : NodeId} {index : UInt32} {valid : Bool}
    {location : Option GeoLocation} {now : DateTime} : Outcome P isWithinRadius config S s
      (.castPollVote id voter index valid location now) := by
  cases hcheck : s.checkPollVote isWithinRadius id voter index valid location now with
  | error e =>
    refine h.outcome_refused ?_ trivial fun poll hok => ?_
    · simp only [PollStore.step, castPollVote, hcheck, Option.map_some]
    · rw [hcheck] at hok
      cases hok
  | ok poll =>
    obtain ⟨hpoll, htime, hindex, hvoter⟩ := checkPollVote_ok hcheck
    have htallies := h.tallied id poll hpoll
    have hcount := List.getElem?_eq_getElem (htallies.options ▸ hindex)
    have heq := castPollVote_of_ok hcheck
    rw [hcount, Option.map_some] at heq
    constructor
    · intro hfits
      rw [if_pos (hfits poll hcheck)] at heq
      exact ⟨_, by rw [PollStore.step, heq, Option.map_some], keeps_withVote hpoll, trivial⟩
    · intro s' hstep
      obtain ⟨⟨r, s''⟩, hcast, rfl⟩ := Option.map_eq_some_iff.mp hstep
      rw [heq] at hcast
      obtain ⟨hlen, hcast⟩ := Option.ite_none_right_eq_some.mp hcast
      cases hcast
      exact ⟨h.withVote hpoll (htallies.vote hcount hlen hvoter htime hindex), fun _ _ _ => hlen⟩

/-- **What a call does to a sound store.** -/
theorem Sound.outcome (hinj : S.InjOn P.sha256) (hS : HashesIn config S s c) :
    Outcome P isWithinRadius config S s c := by
  cases c with
  | createPoll => exact h.outcome_createPoll hinj hS
  | castPollVote => exact h.outcome_castPollVote

theorem Sound.exact_iff_fits (hinj : S.InjOn P.sha256) (hS : HashesIn config S s c) :
    s.Exact P isWithinRadius config c ↔ s.Fits isWithinRadius config c := by
  have hout : Outcome P isWithinRadius config S s c := h.outcome hinj hS
  constructor
  · rintro ⟨s', hstep, -, -, hexpires⟩
    exact (hout.step s' hstep).2 hexpires
  · intro hfits
    obtain ⟨s', hstep, hkeeps, hexpires⟩ := hout.fits hfits
    exact ⟨s', hstep, (hout.step s' hstep).1.tallied, hkeeps, hexpires⟩

end Outcome

/-- **Polls are exact**, along a run without collisions of identifiers, exactly if every call
fits. -/
theorem polls_exact_iff (P : Platform) (isWithinRadius : GeoLocation → GeographicFilter → Bool)
    (config : GovernanceConfig) (calls : List PollCall)
    (hhash : Set.InjOn P.sha256
      {x | x ∈ outputs (step P isWithinRadius config) (idInput config) new calls}) :
    Along (step P isWithinRadius config) (Exact P isWithinRadius config) new calls ↔
      Along (step P isWithinRadius config) (Fits isWithinRadius config) new calls :=
  along_congr (Sound P _) (fun _ _ _ hS _ hstep h => ((h.outcome hhash hS).step _ hstep).1)
    (fun _ _ hS h => h.exact_iff_fits hhash hS) calls new
    (along_outputs calls new fun _ hx => hx) sound_new

end PollStore

namespace Reference

def pollOf (duration : UInt64) : PollCall :=
  .createPoll ⟨.splat 1⟩ "question" ["yes", "no"] duration none 10000000 ⟨0, 0⟩

def firstPoll : Bytes32 := sha256 (pollIdInput ⟨.splat 1⟩ ⟨0, 0⟩ 0)

def pollCalls : List PollCall :=
  [pollOf 3600, .castPollVote firstPoll (node 2) 0 true none ⟨60, 0⟩,
    .castPollVote firstPoll (node 2) 1 true none ⟨90, 0⟩,
    .castPollVote firstPoll (node 3) 1 true none ⟨120, 0⟩]

end Reference

open Reference PollStore in
theorem polls_exact_pollCalls :
    Along (step reference (fun _ _ => true) {}) (Exact reference (fun _ _ => true) {}) new
      pollCalls := by
  have hhash :
      ∀ x ∈ outputs (step reference (fun _ _ => true) {}) (idInput {}) new pollCalls,
      ∀ y ∈ outputs (step reference (fun _ _ => true) {}) (idInput {}) new pollCalls,
      reference.sha256 x = reference.sha256 y → x = y := by decide +kernel
  exact (polls_exact_iff reference (fun _ _ => true) {} pollCalls
    fun x hx y hy => hhash x hx y hy).mpr (by decide +kernel)

open Reference PollStore in
/-- A poll of `u64::MAX` seconds has expired before it is created, and one of `i64::MAX` seconds
panics. -/
theorem polls_of_long_durations :
    (((new.step reference (fun _ _ => true) {} (pollOf 0xFFFFFFFFFFFFFFFF)).bind fun s =>
      s.polls[firstPoll]?).map fun poll => (poll.createdAt, poll.expiresAt)) =
      some (⟨0, 0⟩, ⟨-1, 0⟩) ∧
    new.step reference (fun _ _ => true) {} (pollOf 0x7FFFFFFFFFFFFFFF) = none ∧
    new.step reference (fun _ _ => true) {} (pollOf 10_000_000_000_000) = none := by
  refine ⟨by decide +kernel, ?_, ?_⟩
  · rw [← Option.not_isSome_iff_eq_none]
    decide +kernel
  · rw [← Option.not_isSome_iff_eq_none]
    decide +kernel

end Gratia
