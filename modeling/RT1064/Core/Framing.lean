import Mathlib.Tactic
import Mathlib.Data.List.ReduceOption

/-!
# Messages over fixed-size packets

A message is sent as packets of at most `m` elements, and the receiver takes a packet shorter
than `m` for the end of a message. A message whose length is a multiple of `m` has no short packet
of its own: the sender closes it with an empty one. `Link` is a sender that does this with one
transfer at a time, `cut` is the receiver.
-/

namespace RT1064.Core

variable {α : Type*}

/-! ### Packets of one transfer -/

/-- A transfer of `n` elements takes this many packets: one at least, and no further one after a
full last packet. -/
def packetCount (m n : ℕ) : ℕ := max 1 ((n + m - 1) / m)

/-- Packet `i` of the transfer of `b`. -/
def packet (m : ℕ) (b : List α) (i : ℕ) : List α := (b.drop (i * m)).take m

lemma packetCount_zero {m : ℕ} (hm : 0 < m) : packetCount m 0 = 1 := by
  have h : (0 + m - 1) / m = 0 := Nat.div_eq_of_lt (by omega)
  rw [packetCount, h]
  rfl

lemma packetCount_of_le {m n : ℕ} (hn : 0 < n) (h : n ≤ m) : packetCount m n = 1 := by
  have hdiv : (n + m - 1) / m < 2 := Nat.div_lt_of_lt_mul (by omega)
  rw [packetCount]
  omega

lemma packet_zero {m : ℕ} {b : List α} (h : b.length ≤ m) : packet m b 0 = b := by
  rw [packet, Nat.zero_mul, List.drop_zero, List.take_of_length_le h]

/-- Packet `i` begins inside a transfer that is not empty. -/
lemma lt_packetCount {m n i : ℕ} (hm : 0 < m) (hn : 0 < n) : i < packetCount m n ↔ i * m < n := by
  have hone : 1 ≤ (n + m - 1) / m := (Nat.one_le_div_iff hm).mpr (by omega)
  rw [packetCount, max_eq_right hone, Nat.lt_iff_add_one_le, Nat.le_div_iff_mul_le hm,
    Nat.add_mul, Nat.one_mul]
  omega

lemma take_append_packet (m : ℕ) (b : List α) (i : ℕ) :
    b.take (i * m) ++ packet m b i = b.take ((i + 1) * m) := by
  rw [packet, Nat.add_mul, Nat.one_mul, List.take_add]

lemma length_packet (m : ℕ) (b : List α) (i : ℕ) :
    (packet m b i).length = min m (b.length - i * m) := by
  simp [packet]

/-- After the last packet all of the transfer has been sent. -/
lemma take_packetCount {m : ℕ} (hm : 0 < m) {b : List α} (hb : b ≠ []) {i : ℕ}
    (hi : packetCount m b.length ≤ i) : b.take (i * m) = b := by
  have h := (lt_packetCount hm (List.length_pos_iff.mpr hb)).not.mp (Nat.not_lt.mpr hi)
  exact List.take_of_length_le (Nat.not_lt.mp h)

/-- A packet is short exactly if it is the last one and the packets before it leave less than
`m` to send. -/
lemma length_packet_lt {m : ℕ} (hm : 0 < m) {b : List α} (hb : b ≠ []) {i : ℕ}
    (hi : i < packetCount m b.length) :
    (packet m b i).length < m ↔ i + 1 = packetCount m b.length ∧ ¬ m ∣ b.length := by
  have hpos := List.length_pos_iff.mpr hb
  have hlt := (lt_packetCount hm hpos).mp hi
  have hnext := lt_packetCount (i := i + 1) hm hpos
  rw [Nat.add_mul, Nat.one_mul] at hnext
  rw [length_packet]
  constructor
  · intro hshort
    refine ⟨by omega, ?_⟩
    rintro ⟨q, hq⟩
    -- a multiple of `m` above `i * m` is at least `(i + 1) * m`
    have hiq : i < q := by
      by_contra hle
      have hmul := Nat.mul_le_mul_left m (Nat.not_lt.mp hle)
      rw [Nat.mul_comm m i] at hmul
      omega
    have hmul := Nat.mul_le_mul_left m hiq
    rw [Nat.mul_succ, Nat.mul_comm m i] at hmul
    omega
  · rintro ⟨hlast, hdvd⟩
    by_contra hfull
    have heq : b.length = i * m + m := by omega
    exact hdvd ⟨i + 1, by rw [heq, Nat.mul_succ, Nat.mul_comm m i]⟩

/-! ### The receiver -/

/-- The messages received so far, and the beginning of the next one. -/
def receive (m : ℕ) (h : List (List α) × List α) (p : List α) : List (List α) × List α :=
  if p.length < m then (h.1 ++ [h.2 ++ p], []) else (h.1, h.2 ++ p)

/-- Cut a stream of packets after each packet shorter than `m`. -/
def cut (m : ℕ) (ps : List (List α)) : List (List α) × List α := ps.foldl (receive m) ([], [])

@[simp] lemma cut_concat (m : ℕ) (ps : List (List α)) (p : List α) :
    cut m (ps ++ [p]) = receive m (cut m ps) p := by
  simp [cut]

/-- One more packet of a message. -/
lemma receive_packet {m : ℕ} (hm : 0 < m) {b : List α} (hb : b ≠ []) {i : ℕ}
    (hi : i < packetCount m b.length) (ms : List (List α)) :
    receive m (ms, b.take (i * m)) (packet m b i) =
      if i + 1 = packetCount m b.length ∧ ¬ m ∣ b.length then (ms ++ [b], [])
      else (ms, b.take ((i + 1) * m)) := by
  by_cases hshort : i + 1 = packetCount m b.length ∧ ¬ m ∣ b.length
  · have hlen := (length_packet_lt hm hb hi).mpr hshort
    rw [receive, if_pos hlen, if_pos hshort, take_append_packet,
      take_packetCount hm hb (Nat.le_of_eq hshort.1.symm)]
  · have hlen := (length_packet_lt hm hb hi).not.mpr hshort
    rw [receive, if_neg hlen, if_neg hshort, take_append_packet]

/-- The empty packet closes the message. -/
lemma receive_nil {m : ℕ} (hm : 0 < m) (ms : List (List α)) (b : List α) :
    receive m (ms, b) [] = (ms ++ [b], []) := by
  rw [receive, if_pos (by simpa using hm), List.append_nil]

/-! ### The sender -/

/-- What the sender is doing: nothing, sending a message of which some packets are out, or closing
a message with an empty packet. -/
inductive Phase (α : Type*)
  | idle
  | message (b : List α) (sent : ℕ)
  | terminator (b : List α) (sent : Bool)

/-- A sender with its history: the transfers it has begun (`none` is an empty one) and the packets
it has sent. -/
structure Link (α : Type*) where
  phase : Phase α := .idle
  transfers : List (Option (List α)) := []
  packets : List (List α) := []

/-- What happens to a sender: a message is offered, the receiver asks for a packet, the sender is
told that the transfer is done. -/
inductive LinkEvent (α : Type*)
  | offer (b : List α)
  | poll
  | done

namespace Link

/-- The messages that were taken. -/
def accepted (l : Link α) : List (List α) := l.transfers.reduceOption

/-- An idle sender takes the message, a busy one refuses it. -/
def step (m : ℕ) (l : Link α) : LinkEvent α → Link α
  | .offer b =>
    match l.phase with
    | .idle => { l with phase := .message b 0, transfers := l.transfers ++ [some b] }
    | _ => l
  | .poll =>
    match l.phase with
    | .message b k =>
      if k < packetCount m b.length then
        { l with phase := .message b (k + 1), packets := l.packets ++ [packet m b k] }
      else l
    | .terminator b false => { l with phase := .terminator b true, packets := l.packets ++ [[]] }
    | _ => l
  | .done =>
    match l.phase with
    | .message b k =>
      if k < packetCount m b.length then l
      else if m ∣ b.length then
        { l with phase := .terminator b false, transfers := l.transfers ++ [none] }
      else { l with phase := .idle }
    | .terminator _ true => { l with phase := .idle }
    | _ => l

/-- Only an offer to an idle sender adds a message. -/
lemma accepted_offer (m : ℕ) (l : Link α) (b : List α) :
    (l.step m (.offer b)).accepted =
      match l.phase with
      | .idle => l.accepted ++ [b]
      | _     => l.accepted := by
  obtain ⟨phase, transfers, packets⟩ := l
  cases phase with
  | idle => simp [step, accepted, List.reduceOption_append]
  | message b' k => rfl
  | terminator b' sent => rfl

@[simp] lemma accepted_poll (m : ℕ) (l : Link α) : (l.step m .poll).accepted = l.accepted := by
  obtain ⟨phase, transfers, packets⟩ := l
  cases phase with
  | idle => rfl
  | message b k =>
    simp only [step]
    split_ifs <;> rfl
  | terminator b sent => cases sent <;> rfl

@[simp] lemma accepted_done (m : ℕ) (l : Link α) : (l.step m .done).accepted = l.accepted := by
  obtain ⟨phase, transfers, packets⟩ := l
  cases phase with
  | idle => rfl
  | message b k =>
    simp only [step]
    split_ifs
    · rfl
    · simp [accepted, List.reduceOption_append]
    · rfl
  | terminator b sent => cases sent <;> rfl

/-- The transfers that the messages `ms` take. -/
def transfersOf (m : ℕ) (ms : List (List α)) : List (Option (List α)) :=
  ms.flatMap fun b => if m ∣ b.length then [some b, none] else [some b]

lemma transfersOf_concat (m : ℕ) (ms : List (List α)) (b : List α) :
    transfersOf m (ms ++ [b]) =
      transfersOf m ms ++ if m ∣ b.length then [some b, none] else [some b] := by
  simp [transfersOf]

/-- Dropping the empty transfers leaves the messages. -/
@[simp] lemma reduceOption_transfersOf (m : ℕ) (ms : List (List α)) :
    (transfersOf m ms).reduceOption = ms := by
  induction ms with
  | nil => rfl
  | cons b ms ih =>
    rw [transfersOf, List.flatMap_cons, List.reduceOption_append]
    split_ifs <;> simpa [transfersOf] using ih

lemma reduceOption_transfersOf_append (m : ℕ) (ms : List (List α)) (b : List α) :
    (transfersOf m ms ++ [some b]).reduceOption = ms ++ [b] := by
  rw [← List.concat_eq_append, List.reduceOption_concat, reduceOption_transfersOf]
  rfl

/-- Where sender and receiver stand: `ms` are the messages before the one under way. -/
inductive Framed (m : ℕ) : Link α → Prop
  | idle (ms : List (List α)) (ps : List (List α)) (hcut : cut m ps = (ms, [])) :
      Framed m ⟨.idle, transfersOf m ms, ps⟩
  | message (ms : List (List α)) (b : List α) (k : ℕ) (ps : List (List α)) (hb : b ≠ [])
      (hk : k ≤ packetCount m b.length)
      (hcut : cut m ps = if k = packetCount m b.length ∧ ¬ m ∣ b.length then (ms ++ [b], [])
        else (ms, b.take (k * m))) :
      Framed m ⟨.message b k, transfersOf m ms ++ [some b], ps⟩
  | terminator (ms : List (List α)) (b : List α) (sent : Bool) (ps : List (List α))
      (hdvd : m ∣ b.length)
      (hcut : cut m ps = if sent then (ms ++ [b], []) else (ms, b)) :
      Framed m ⟨.terminator b sent, transfersOf m (ms ++ [b]), ps⟩

lemma framed_new {m : ℕ} : Framed m (⟨.idle, [], []⟩ : Link α) := Framed.idle [] [] rfl

variable {m : ℕ} {l : Link α}

/-- One step keeps sender and receiver together, as long as no empty message is offered. -/
lemma Framed.step (hm : 0 < m) (h : Framed m l) (e : LinkEvent α)
    (he : ∀ b, e = .offer b → b ≠ []) : Framed m (l.step m e) := by
  cases h with
  | idle ms ps hcut =>
    cases e with
    | offer b =>
      refine Framed.message ms b 0 ps (he b rfl) (Nat.zero_le _) ?_
      have hpos : 0 ≠ packetCount m b.length := Nat.ne_of_lt (Nat.le_max_left 1 _)
      rw [hcut, if_neg fun h => hpos h.1, Nat.zero_mul, List.take_zero]
    | poll => exact Framed.idle ms ps hcut
    | done => exact Framed.idle ms ps hcut
  | message ms b k ps hb hk hcut =>
    cases e with
    | offer b' => exact Framed.message ms b k ps hb hk hcut
    | poll =>
      by_cases hlt : k < packetCount m b.length
      · simp only [Link.step, if_pos hlt]
        refine Framed.message ms b (k + 1) _ hb hlt ?_
        rw [if_neg fun h => hlt.ne h.1] at hcut
        rw [cut_concat, hcut, receive_packet hm hb hlt]
      · simp only [Link.step, if_neg hlt]
        exact Framed.message ms b k ps hb hk hcut
    | done =>
      by_cases hlt : k < packetCount m b.length
      · simp only [Link.step, if_pos hlt]
        exact Framed.message ms b k ps hb hk hcut
      · obtain rfl : k = packetCount m b.length := by omega
        by_cases hdvd : m ∣ b.length
        · simp only [Link.step, if_neg hlt, if_pos hdvd]
          rw [if_neg fun h => h.2 hdvd, take_packetCount hm hb (Nat.le_refl _)] at hcut
          have h := Framed.terminator ms b false ps hdvd (by simpa using hcut)
          rwa [transfersOf_concat, if_pos hdvd, List.append_cons] at h
        · simp only [Link.step, if_neg hlt, if_neg hdvd]
          rw [if_pos ⟨rfl, hdvd⟩] at hcut
          have h := Framed.idle _ ps hcut
          rwa [transfersOf_concat, if_neg hdvd] at h
  | terminator ms b sent ps hdvd hcut =>
    cases sent with
    | false =>
      cases e with
      | offer b' => exact Framed.terminator ms b false ps hdvd hcut
      | poll =>
        refine Framed.terminator ms b true _ hdvd ?_
        rw [cut_concat, hcut, if_neg Bool.false_ne_true, receive_nil hm, if_pos rfl]
      | done => exact Framed.terminator ms b false ps hdvd hcut
    | true =>
      cases e with
      | offer b' => exact Framed.terminator ms b true ps hdvd hcut
      | poll => exact Framed.terminator ms b true ps hdvd hcut
      | done =>
        rw [if_pos rfl] at hcut
        exact Framed.idle _ ps hcut

/-- Only a poll moves on in a message, by one packet. -/
lemma message_of_poll {b : List α} {k : ℕ} (h : (l.step m .poll).phase = .message b k) :
    l.phase = .message b k ∨ ∃ j, k = j + 1 ∧ l.phase = .message b j := by
  obtain ⟨phase, ts, ps⟩ := l
  cases phase with
  | idle => cases h
  | message b' j =>
    simp only [step] at h
    split_ifs at h
    · obtain ⟨rfl, rfl⟩ := Phase.message.inj h
      exact Or.inr ⟨j, rfl, rfl⟩
    · exact Or.inl h
  | terminator b' sent => cases sent <;> cases h

lemma message_of_done {b : List α} {k : ℕ} (h : (l.step m .done).phase = .message b k) :
    l.phase = .message b k := by
  obtain ⟨phase, ts, ps⟩ := l
  cases phase with
  | idle => cases h
  | message b' j =>
    simp only [step] at h
    split_ifs at h
    exact h
  | terminator b' sent => cases sent <;> cases h

/-- The receiver asks for packets until the message is out. -/
lemma phase_polls {b : List α} {k n : ℕ} (h : l.phase = .message b k)
    (hn : k + n ≤ packetCount m b.length) :
    ((fun l : Link α => l.step m .poll)^[n] l).phase = .message b (k + n) := by
  induction n generalizing l k with
  | zero => exact h
  | succ n ih =>
    rw [Function.iterate_succ_apply, Nat.add_comm n 1, ← Nat.add_assoc]
    refine ih ?_ (by omega)
    have hlt : k < packetCount m b.length := by omega
    simp only [step, h, if_pos hlt]

lemma accepted_polls (n : ℕ) :
    ((fun l : Link α => l.step m .poll)^[n] l).accepted = l.accepted := by
  induction n generalizing l with
  | zero => rfl
  | succ n ih => rw [Function.iterate_succ_apply, ih, accepted_poll]

/-- What the receiver has of a message under way. -/
lemma Framed.cut_of_message (h : Framed m l) {b : List α} {k : ℕ}
    (hphase : l.phase = .message b k) : ∃ ms, l.accepted = ms ++ [b] ∧ b ≠ [] ∧
      k ≤ packetCount m b.length ∧ cut m l.packets =
        if k = packetCount m b.length ∧ ¬ m ∣ b.length then (ms ++ [b], [])
        else (ms, b.take (k * m)) := by
  cases h with
  | idle ms ps hcut => cases hphase
  | message ms b' k' ps hb hk hcut =>
    obtain ⟨rfl, rfl⟩ := Phase.message.inj hphase
    exact ⟨ms, reduceOption_transfersOf_append m ms _, hb, hk, hcut⟩
  | terminator ms b' sent ps hdvd hcut => cases hphase

/-- The receiver has all messages but the one under way. -/
lemma Framed.cut_eq (h : Framed m l) :
    l.accepted = (cut m l.packets).1 ∧ (cut m l.packets).2 = [] ∨
      ∃ b, l.accepted = (cut m l.packets).1 ++ [b] ∧ (cut m l.packets).2 <+: b ∧
        l.phase ≠ .idle := by
  cases h with
  | idle ms ps hcut =>
    left
    simp [accepted, hcut]
  | message ms b k ps hb hk hcut =>
    have hacc := reduceOption_transfersOf_append m ms b
    by_cases hlast : k = packetCount m b.length ∧ ¬ m ∣ b.length
    · left
      rw [if_pos hlast] at hcut
      simp only [accepted, hacc, hcut, and_self]
    · right
      rw [if_neg hlast] at hcut
      refine ⟨b, ?_, ?_, by simp⟩
      · simp only [accepted, hacc, hcut]
      · simp only [hcut, List.take_prefix]
  | terminator ms b sent ps hdvd hcut =>
    cases sent with
    | false =>
      right
      rw [if_neg Bool.false_ne_true] at hcut
      refine ⟨b, ?_, ?_, by simp⟩
      · simp only [accepted, reduceOption_transfersOf, hcut]
      · simp only [hcut, List.prefix_rfl]
    | true =>
      left
      rw [if_pos rfl] at hcut
      simp only [accepted, reduceOption_transfersOf, hcut, and_self]

/-- No more transfers than the messages need, and an idle sender has begun all of them. -/
lemma Framed.transfers_eq (h : Framed m l) :
    l.transfers <+: transfersOf m l.accepted ∧
      (l.transfers ≠ transfersOf m l.accepted → ∃ b k, l.phase = .message b k ∧ m ∣ b.length) := by
  cases h with
  | idle ms ps hcut => simp [accepted]
  | message ms b k ps hb hk hcut =>
    have hacc := reduceOption_transfersOf_append m ms b
    simp only [accepted, hacc, transfersOf_concat]
    by_cases hdvd : m ∣ b.length
    · rw [if_pos hdvd]
      refine ⟨?_, fun _ => ⟨b, k, rfl, hdvd⟩⟩
      exact (List.prefix_append_right_inj _).mpr (List.prefix_append [some b] [none])
    · rw [if_neg hdvd]
      exact ⟨List.prefix_rfl, fun h => absurd rfl h⟩
  | terminator ms b sent ps hdvd hcut => simp [accepted]

end Link
end RT1064.Core
