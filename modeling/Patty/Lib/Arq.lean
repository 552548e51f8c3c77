import Patty.Lib.Ring

/-! # Numbered messages over channels that lose

A sender numbers its messages and keeps at most `window` of them outstanding; a receiver takes the message it expects
and acknowledges by the number of the next one. Messages and acknowledgements travel in order, some are lost, and the
sender may send a message that is outstanding as often as it likes. On the wire a number is one modulo `M`: with
`window < M`, a message in flight has the number that the receiver expects, modulo `M`, only if it is the message that
the receiver expects (`Inv.eq_expected`). -/

/-- The two ends, by numbers that do not wrap. -/
structure Arq where
  /-- The first number that the sender does not know to be received. -/
  acked : Nat
  /-- The number of the next new message. -/
  next : Nat
  /-- The number of the message that the receiver expects. -/
  expected : Nat
  /-- The messages in flight, the oldest first. -/
  flight : List Nat
  /-- The acknowledgements in flight, the oldest first. -/
  acks : List Nat

namespace Arq

/-! ## What the two ends do -/

/-- There is a new message. -/
def fresh (q : Arq) : Arq := { q with next := q.next + 1 }

def send (q : Arq) (ks : List Nat) : Arq := { q with flight := q.flight ++ ks }

/-- What is left in flight of the messages. -/
def keep (q : Arq) (flight : List Nat) : Arq := { q with flight }

/-- The receiver takes the oldest message in flight. -/
def take (q : Arq) (flight : List Nat) : Arq := { q with expected := q.expected + 1, flight }

/-- The receiver acknowledges `n` times. -/
def answer (q : Arq) (n : Nat) : Arq := { q with acks := q.acks ++ List.replicate n q.expected }

/-- What is left in flight of the acknowledgements. -/
def keepAcks (q : Arq) (acks : List Nat) : Arq := { q with acks }

/-- The sender takes the oldest acknowledgement in flight. -/
def ack (q : Arq) (x : Nat) (acks : List Nat) : Arq := { q with acked := x, acks }

structure Inv (window : Nat) (q : Arq) : Prop where
  acked_le : q.acked ≤ q.expected
  expected_le : q.expected ≤ q.next
  room : q.next ≤ q.acked + window
  sent : ∀ k ∈ q.flight, k < q.next
  /-- No message is so old that the receiver may expect its number again. -/
  recent : ∀ k ∈ q.flight, q.expected ≤ k + window
  order : q.flight.Pairwise fun j k => j < k + window
  acked_le_ack : ∀ x ∈ q.acks, q.acked ≤ x
  ack_le : ∀ x ∈ q.acks, x ≤ q.expected
  acks_order : q.acks.Pairwise (· ≤ ·)

namespace Inv

variable {window M k x : Nat} {q : Arq} {l : List Nat}

/-- Nothing has been sent yet. -/
theorem start (window : Nat) : Inv window ⟨0, 0, 0, [], []⟩ where
  acked_le := le_rfl
  expected_le := le_rfl
  room := Nat.zero_le _
  sent _ h := absurd h List.not_mem_nil
  recent _ h := absurd h List.not_mem_nil
  order := .nil
  acked_le_ack _ h := absurd h List.not_mem_nil
  ack_le _ h := absurd h List.not_mem_nil
  acks_order := .nil

theorem fresh (H : q.Inv window) (h : q.next < q.acked + window) : q.fresh.Inv window where
  __ := H
  expected_le := Nat.le_succ_of_le H.expected_le
  room := h
  sent k hk := Nat.lt_succ_of_lt (H.sent k hk)

/-- Outstanding messages are sent, maybe once more. -/
theorem send (H : q.Inv window) (h : ∀ k ∈ l, q.acked ≤ k ∧ k < q.next) : (q.send l).Inv window where
  __ := H
  sent j hj := by
    obtain hj | hj := List.mem_append.mp hj
    · exact H.sent j hj
    · exact (h j hj).2
  recent j hj := by
    obtain hj | hj := List.mem_append.mp hj
    · exact H.recent j hj
    · have hle := H.expected_le
      have hroom := H.room
      have hj' := (h j hj).1
      exact show q.expected ≤ j + window by omega
  order := by
    -- what is sent now is at most a window behind anything that was sent
    have hnew {j k : Nat} (hj : j < q.next) (hk : k ∈ l) : j < k + window := by
      have hk' := (h k hk).1
      have hroom := H.room
      omega
    exact List.pairwise_append.mpr ⟨H.order, List.pairwise_of_forall_mem_list fun j hj k hk => hnew (h j hj).2 hk,
      fun j hj k hk => hnew (H.sent j hj) hk⟩

theorem keep (H : q.Inv window) (h : l.Sublist q.flight) : (q.keep l).Inv window where
  __ := H
  sent k hk := H.sent k (h.subset hk)
  recent k hk := H.recent k (h.subset hk)
  order := H.order.sublist h

/-- The message that the receiver expects is taken. -/
theorem take (H : q.Inv window) (h : q.flight = q.expected :: l) : (q.take l).Inv window where
  __ := H
  acked_le := Nat.le_succ_of_le H.acked_le
  expected_le := H.sent q.expected (h ▸ List.mem_cons_self)
  sent k hk := H.sent k (h ▸ List.mem_cons_of_mem _ hk)
  recent k hk := (List.pairwise_cons.mp (h ▸ H.order)).1 k hk
  order := (List.pairwise_cons.mp (h ▸ H.order)).2
  ack_le x hx := Nat.le_succ_of_le (H.ack_le x hx)

theorem answer (H : q.Inv window) (n : Nat) : (q.answer n).Inv window where
  __ := H
  acked_le_ack x hx := by
    obtain hx | hx := List.mem_append.mp hx
    · exact H.acked_le_ack x hx
    · exact List.eq_of_mem_replicate hx ▸ H.acked_le
  ack_le x hx := by
    obtain hx | hx := List.mem_append.mp hx
    · exact H.ack_le x hx
    · exact (List.eq_of_mem_replicate hx).le
  acks_order := by
    have heq {x : Nat} (hx : x ∈ List.replicate n q.expected) : x = q.expected := List.eq_of_mem_replicate hx
    exact List.pairwise_append.mpr ⟨H.acks_order,
      List.pairwise_of_forall_mem_list fun x hx y hy => (heq hx).le.trans (heq hy).ge,
      fun x hx y hy => (H.ack_le x hx).trans (heq hy).ge⟩

theorem keepAcks (H : q.Inv window) (h : l.Sublist q.acks) : (q.keepAcks l).Inv window where
  __ := H
  acked_le_ack x hx := H.acked_le_ack x (h.subset hx)
  ack_le x hx := H.ack_le x (h.subset hx)
  acks_order := H.acks_order.sublist h

theorem ack (H : q.Inv window) (h : q.acks = x :: l) : (q.ack x l).Inv window where
  __ := H
  acked_le := H.ack_le x (h ▸ List.mem_cons_self)
  room := by
    have hle := H.acked_le_ack x (h ▸ List.mem_cons_self)
    have hroom := H.room
    exact show q.next ≤ x + window by omega
  acked_le_ack y hy := (List.pairwise_cons.mp (h ▸ H.acks_order)).1 y hy
  ack_le y hy := H.ack_le y (h ▸ List.mem_cons_of_mem _ hy)
  acks_order := (List.pairwise_cons.mp (h ▸ H.acks_order)).2

/-- What is acknowledged was outstanding. -/
theorem ack_range (H : q.Inv window) (h : x ∈ q.acks) : q.acked ≤ x ∧ x ≤ q.next :=
  ⟨H.acked_le_ack x h, (H.ack_le x h).trans H.expected_le⟩

/-- A message with the expected number, modulo `M`, is the expected one. -/
theorem eq_expected (H : q.Inv window) (hM : window < M) (hk : k ∈ q.flight) (h : k % M = q.expected % M) :
    k = q.expected := by
  have hsent := H.sent k hk
  have hrecent := H.recent k hk
  have hroom := H.room
  have hacked := H.acked_le
  obtain hle | hle := Nat.le_total k q.expected
  · exact Ring.eq_of_mod_eq h hle (by omega)
  · exact (Ring.eq_of_mod_eq h.symm hle (by omega)).symm

end Inv

/-! ## Messages and their numbers -/

/-- The messages carry the numbers, in order; those with the property `S` carry none. -/
inductive Carry {α : Type} (R : α → Nat → Prop) (S : α → Prop) : List α → List Nat → Prop
  | nil : Carry R S [] []
  | num {m : α} {k : Nat} {ms : List α} {ks : List Nat} : R m k → Carry R S ms ks → Carry R S (m :: ms) (k :: ks)
  | plain {m : α} {ms : List α} {ks : List Nat} : S m → Carry R S ms ks → Carry R S (m :: ms) ks

namespace Carry

variable {α : Type} {R R' : α → Nat → Prop} {S S' : α → Prop} {m : α} {ms ms' : List α} {k : Nat} {ks ks' : List Nat}

theorem mono (H : Carry R S ms ks) (hR : ∀ m k, R m k → R' m k) (hS : ∀ m, S m → S' m) : Carry R' S' ms ks := by
  induction H with
  | nil => exact .nil
  | num h _ ih => exact .num (hR _ _ h) ih
  | plain h _ ih => exact .plain (hS _ h) ih

theorem append (H : Carry R S ms ks) (H' : Carry R S ms' ks') : Carry R S (ms ++ ms') (ks ++ ks') := by
  induction H with
  | nil => exact H'
  | num h _ ih => exact .num h ih
  | plain h _ ih => exact .plain h ih

/-- If a message is lost, so is its number. -/
theorem lose (H : Carry R S (ms ++ m :: ms') ks) : ∃ ks', ks'.Sublist ks ∧ Carry R S (ms ++ ms') ks' := by
  induction ms generalizing ks with
  | nil =>
    cases H with
    | num _ H => exact ⟨_, List.sublist_cons_self .., H⟩
    | plain _ H => exact ⟨_, List.Sublist.refl _, H⟩
  | cons a ms ih =>
    cases H with
    | num h H =>
      obtain ⟨ks', hsub, H'⟩ := ih H
      exact ⟨_, hsub.cons_cons _, .num h H'⟩
    | plain h H =>
      obtain ⟨ks', hsub, H'⟩ := ih H
      exact ⟨ks', hsub, .plain h H'⟩

/-- Messages that carry the same number. -/
theorem replicate (h : ∀ m ∈ ms, R m k) : Carry R S ms (List.replicate ms.length k) := by
  induction ms with
  | nil => exact .nil
  | cons m ms ih => exact .num (h m List.mem_cons_self) (ih fun m' h' => h m' (List.mem_cons_of_mem m h'))

/-- Messages that carry the number `k` or none. -/
theorem of_forall {K : Prop} (h : ∀ m ∈ ms, R m k ∧ K ∨ S m) : ∃ ks, Carry R S ms ks ∧ ∀ j ∈ ks, j = k ∧ K := by
  induction ms with
  | nil => exact ⟨[], .nil, fun _ h => absurd h List.not_mem_nil⟩
  | cons m ms ih =>
    obtain ⟨ks, hks, hall⟩ := ih fun m' h' => h m' (List.mem_cons_of_mem m h')
    obtain ⟨hR, hK⟩ | hS := h m List.mem_cons_self
    · refine ⟨k :: ks, .num hR hks, fun j hj => ?_⟩
      obtain rfl | hj := List.mem_cons.mp hj
      · exact ⟨rfl, hK⟩
      · exact hall j hj
    · exact ⟨ks, .plain hS hks, hall⟩

end Carry

end Arq
