import Gratia.Core.Reference
import Gratia.Network.Gossip
import Gratia.Support.Runs

/-!
# Network — Suppression

Which messages a node drops as repeats.  A cache only ever holds identifiers of messages that were
handed on (`remembered`), so what is dropped shares its identifier with an earlier message; whether
it is that message depends on what the identifier is made of.  For transactions and posts it is a
field that the sender fills in and nobody recomputes, for blocks the hash of the header.
-/

namespace Gratia

open Support Std

/-! ### Identifiers -/

theorem GossipMessage.kind_eq_of_messageId_eq {P : Platform} {m n : GossipMessage}
    (h : m.messageId P = n.messageId P) : m.kind = n.kind := by
  unfold messageId at h
  cases m <;> cases n <;> simp_all [kind, GossipTopic.tag]

/-! ### Runs -/

variable (P : Platform) (G : GossipCrates)

theorem Incoming.Carries.unique {i : Incoming} {m n : GossipMessage} (hm : i.Carries P G m)
    (hn : i.Carries P G n) : m = n :=
  Except.ok.inj (hm.1.symm.trans hn.1)

namespace GossipHandler

def after (feed : List Incoming) : GossipHandler :=
  run (fun h i => h.process P G i) new feed

def answer (before : List Incoming) (i : Incoming) : Except NetworkError (Option GossipMessage) :=
  ((after P G before).process P G i).1

def Delivered (feed : List Incoming) (msg : GossipMessage) : Prop :=
  ∃ before i rest, feed = before ++ i :: rest ∧ answer P G before i = .ok (some msg)

/-- Whatever is dropped was handed on before, with the same content. -/
def DropsOnlyRepeats (feed : List Incoming) : Prop :=
  ∀ before i rest, feed = before ++ i :: rest → answer P G before i = .ok none →
    ∃ msg, i.Carries P G msg ∧ Delivered P G before msg

variable {P G} {feed before : List Incoming} {i : Incoming} {msg : GossipMessage}

theorem after_snoc : after P G (feed ++ [i]) = ((after P G feed).process P G i).2 :=
  run_append ..

theorem Delivered.snoc (h : Delivered P G feed msg) : Delivered P G (feed ++ [i]) msg := by
  obtain ⟨before, j, rest, rfl, hj⟩ := h
  exact ⟨before, j, rest ++ [i], by simp, hj⟩

theorem answer_of_carries (h : i.Carries P G msg) :
    answer P G before i =
      .ok (if msg.messageId P ∈ ((after P G before).cache msg.kind).seenSet then none
        else some msg) := by
  rcases process_cases (P := P) (G := G) (after P G before) i with ⟨e, -, hno⟩ | ⟨m, hm, he⟩
  · exact absurd h (hno msg)
  · obtain rfl := h.unique P G hm
    rw [answer, he, checkNew_fst]
    by_cases hk : msg.messageId P ∈ ((after P G before).cache msg.kind).seenSet
    · rw [DeduplicationCache.checkAndInsert_fst.mpr hk, if_pos hk]
      rfl
    · rw [Bool.eq_true_of_not_eq_false (mt DeduplicationCache.checkAndInsert_fst.mp hk), if_neg hk]
      rfl

theorem carries_of_answer {o : Option GossipMessage} (h : answer P G before i = .ok o) :
    ∃ msg, i.Carries P G msg := by
  rcases process_cases (P := P) (G := G) (after P G before) i with ⟨e, he, -⟩ | ⟨m, hm, -⟩
  · rw [answer, he] at h
    cases h
  · exact ⟨m, hm⟩

/-- **A cache holds identifiers of messages that were handed on.** -/
theorem remembered (feed : List Incoming) {k : GossipTopic} {id : Bytes}
    (h : id ∈ ((after P G feed).cache k).seenSet) :
    ∃ msg, msg.messageId P = id ∧ Delivered P G feed msg := by
  induction feed using List.reverseRecOn generalizing k id with
  | nil => simp [after, run] at h
  | append_singleton feed i ih =>
    have hold : id ∈ ((after P G feed).cache k).seenSet →
        ∃ msg, msg.messageId P = id ∧ Delivered P G (feed ++ [i]) msg := fun hmem => by
      obtain ⟨msg, hid, hdel⟩ := ih hmem
      exact ⟨msg, hid, hdel.snoc⟩
    rw [after_snoc] at h
    rcases process_cases (P := P) (G := G) (after P G feed) i with ⟨e, he, -⟩ | ⟨m, hm, he⟩
    · rw [he] at h
      exact hold h
    · rw [he] at h
      simp only [cache_checkNew] at h
      split at h
      · next hk =>
          subst hk
          rcases DeduplicationCache.mem_checkAndInsert h with hmem | rfl
          · exact hold hmem
          · -- The identifier is that of the message that has just come in.
            by_cases hknown : m.messageId P ∈ ((after P G feed).cache m.kind).seenSet
            · exact hold hknown
            · exact ⟨m, rfl, feed, i, [], rfl, by rw [answer_of_carries hm, if_neg hknown]⟩
      · exact hold h

theorem answer_of_messageId_eq {j : Incoming} {m n : GossipMessage} (hm : i.Carries P G m)
    (hn : j.Carries P G n) (hid : m.messageId P = n.messageId P) :
    answer P G [] i = .ok (some m) ∧ answer P G [i] j = .ok none := by
  have hfirst : answer P G [] i = .ok (some m) := by
    rw [answer_of_carries hm, if_neg (by simp [after, run])]
  refine ⟨hfirst, ?_⟩
  rw [answer_of_carries hn, if_pos]
  have hafter : after P G [i] = ((new.process P G i)).2 := rfl
  rcases process_cases (P := P) (G := G) new i with ⟨e, -, hno⟩ | ⟨m', hm', he⟩
  · exact absurd hm (hno m)
  · obtain rfl := hm.unique P G hm'
    rw [hafter, he, cache_checkNew, if_pos (GossipMessage.kind_eq_of_messageId_eq hid).symm, ← hid]
    exact DeduplicationCache.self_mem_checkAndInsert

theorem not_dropsOnlyRepeats {j : Incoming} {m n : GossipMessage} (hm : i.Carries P G m)
    (hn : j.Carries P G n) (hid : m.messageId P = n.messageId P) (hne : m ≠ n) :
    ¬ DropsOnlyRepeats P G [i, j] := by
  intro h
  obtain ⟨hfirst, hsecond⟩ := answer_of_messageId_eq hm hn hid
  obtain ⟨msg, hmsg, before, i', rest, hsplit, hans⟩ := h [i] j [] rfl hsecond
  obtain rfl := hmsg.unique P G hn
  obtain ⟨rfl, rfl, rfl⟩ : before = [] ∧ i' = i ∧ rest = [] := by
    simpa [List.singleton_eq_append_iff] using hsplit
  exact hne (Option.some.inj (Except.ok.inj (hfirst.symm.trans hans)))

/-- **Only repeats are dropped**, whatever sequence of inputs from `S` comes in, exactly when no two
valid messages among them share an identifier. -/
theorem drops_only_repeats_iff (S : Set Incoming) :
    (∀ feed : List Incoming, (∀ i ∈ feed, i ∈ S) → DropsOnlyRepeats P G feed) ↔
      Set.InjOn (GossipMessage.messageId P) {msg | ∃ i ∈ S, i.Carries P G msg} := by
  constructor
  · rintro h m ⟨i, hi, hm⟩ n ⟨j, hj, hn⟩ hid
    by_contra hne
    exact not_dropsOnlyRepeats hm hn hid hne (h [i, j] (by simp [hi, hj]))
  · rintro hinj feed hfeed before i rest rfl hdrop
    obtain ⟨n, hn⟩ := carries_of_answer hdrop
    refine ⟨n, hn, ?_⟩
    have hknown : n.messageId P ∈ ((after P G before).cache n.kind).seenSet := by
      by_contra hno
      rw [answer_of_carries hn, if_neg hno] at hdrop
      cases hdrop
    obtain ⟨m, hid, hdel⟩ := remembered before hknown
    obtain ⟨earlier, j, later, hsplit, hans⟩ := hdel
    obtain ⟨m', hm⟩ := carries_of_answer hans
    obtain rfl : m = m' := by
      rw [answer_of_carries hm] at hans
      split at hans
      · cases hans
      · exact (Option.some.inj (Except.ok.inj hans)).symm
    have hj : j ∈ S := hfeed j (by simp [hsplit])
    obtain rfl := hinj ⟨j, hj, hm⟩ ⟨i, hfeed i (by simp), hn⟩ hid
    exact ⟨earlier, j, later, hsplit, hans⟩

end GossipHandler

/-! ### Messages to compute with -/

namespace Reference

def luxPost : Codec (String × String) := text.pair text

def textPost (hash content : String) : LuxPost :=
  { hash := hash, author := "grat:07", signature := List.replicate 64 0, timestamp := ⟨0, 0⟩,
    contentType := "text/plain", content := content, attachments := [], replyTo := none,
    repostOf := none, metadata := ∅ }

/-- Blocks, transactions and posts, after the number of their variant. -/
def gossipCrates : GossipCrates where
  fromBytes
    | 0 :: 0 :: 0 :: 0 :: rest =>
      match block.take rest with
      | some (b, _) => .ok (.newBlock b)
      | none => .error "io error: unexpected end of file"
    | 1 :: 0 :: 0 :: 0 :: rest =>
      match transaction.take rest with
      | some (tx, _) => .ok (.newTransaction tx)
      | none => .error "io error: unexpected end of file"
    | 4 :: 0 :: 0 :: 0 :: rest =>
      match luxPost.take rest with
      | some (p, _) => .ok (.newLuxPost (textPost p.1 p.2))
      | none => .error "io error: unexpected end of file"
    | _ => .error "invalid value: expected variant index 0 <= i < 6"
  verifyStrict key message signature := signature == sign key message
  signatureErrorText := "signature error"

def blockIn (b : Block) : Incoming := ⟨⟨0, 0⟩, "gratia/blocks/1", [0, 0, 0, 0] ++ block.put b⟩

def transactionIn (tx : Transaction) : Incoming :=
  ⟨⟨0, 0⟩, "gratia/transactions/1", [1, 0, 0, 0] ++ transaction.put tx⟩

def postIn (hash content : String) : Incoming :=
  ⟨⟨0, 0⟩, "gratia/lux/posts/1", [4, 0, 0, 0] ++ luxPost.put (hash, content)⟩

def genuineTx : Transaction := signedTx (key 7) (.transfer (addressOf (key 8)) 100) 0 10

def forgedTx : Transaction := { genuineTx with payload := .transfer (addressOf (key 9)) 100 }

def genuineBlock : Block :=
  { header := headerAt 1 {} (node 1), transactions := [genuineTx], attestations := [],
    validatorSignatures := [⟨node 1, List.replicate 64 0⟩] }

def forgedBlock : Block := { genuineBlock with transactions := [] }

end Reference

open Reference GossipHandler in
/-- **A forged message suppresses the genuine one**: a transaction with a copied hash, a block with
the same header and another body, a post with a copied hash.  Each is handed on, and the genuine one
is dropped after it. -/
theorem forged_suppresses_genuine :
    ¬ DropsOnlyRepeats reference gossipCrates [transactionIn forgedTx, transactionIn genuineTx] ∧
    ¬ DropsOnlyRepeats reference gossipCrates [blockIn forgedBlock, blockIn genuineBlock] ∧
    ¬ DropsOnlyRepeats reference gossipCrates [postIn "5f" "Hallo", postIn "5f" "Hello"] := by
  have htx : ∀ tx, gossipCrates.fromBytes (transactionIn tx).data = .ok (.newTransaction tx) := by
    simp [transactionIn, gossipCrates, Codec.take_put_self]
  have hblock : ∀ b, gossipCrates.fromBytes (blockIn b).data = .ok (.newBlock b) := by
    simp [blockIn, gossipCrates, Codec.take_put_self]
  have hpost : ∀ hash content, gossipCrates.fromBytes (postIn hash content).data =
      .ok (.newLuxPost (textPost hash content)) := by
    simp [postIn, gossipCrates, Codec.take_put_self]
  refine ⟨?_, ?_, ?_⟩
  · refine not_dropsOnlyRepeats (Incoming.carries_iff.mpr ⟨?_, htx _, ?_, rfl⟩)
      (Incoming.carries_iff.mpr ⟨?_, htx _, ?_, rfl⟩) rfl fun h => ?_
    case refine_5 => exact absurd (GossipMessage.newTransaction.inj h) (by decide +kernel)
    all_goals decide +kernel
  · refine not_dropsOnlyRepeats (Incoming.carries_iff.mpr ⟨?_, hblock _, ?_, rfl⟩)
      (Incoming.carries_iff.mpr ⟨?_, hblock _, ?_, rfl⟩) rfl fun h => ?_
    case refine_5 => exact absurd (GossipMessage.newBlock.inj h) (by decide +kernel)
    all_goals decide +kernel
  · refine not_dropsOnlyRepeats (Incoming.carries_iff.mpr ⟨?_, hpost _ _, ?_, rfl⟩)
      (Incoming.carries_iff.mpr ⟨?_, hpost _ _, ?_, rfl⟩) rfl fun h => ?_
    case refine_5 =>
      exact absurd (congrArg LuxPost.content (GossipMessage.newLuxPost.inj h)) (by decide)
    all_goals decide +kernel

end Gratia
