import Patty.Delivery.Ends
import Patty.Lib.Arq
import Patty.Lib.Run

/-! # Delivery

Two servers whose sockets are the ends of one connection take their turns, send each other frames over channels that
keep the order but may lose any frame, and handle what arrives. What the far server writes to the pty of its socket is a
prefix of what the near one has read from its own, without loss, repetition or change of order, in every run that stays
clear of what the code gets wrong (`Fair`, `delivers_run`).

`Pair.Delivers` says of a state which numbers, of those that do not wrap, its frames carry; the numbers are those of an
`Arq`, so that a step of the pair is a step of the `Arq`. -/

namespace Patty

open Prog

/-! ## Two servers -/

/-- Two servers, the frames on the way from one to the other, and what the near one has read for the connection. -/
structure Pair where
  near : World
  far : World
  toFar : List Bytes
  toNear : List Bytes
  taken : List Bytes

/-- What can happen: a turn of one of the two sockets, the arrival of the first frame that is on the way, on an
interface and with any memory behind it, or the loss of a frame. -/
inductive Hop
  | near (t : Turn)
  | far (t : Turn)
  | toFar (sys : Sys) (i : Nat) (rest : Mem)
  | toNear (sys : Sys) (i : Nat) (rest : Mem)
  | lose

instance (s : Sock) (elapsed : Timespec) : Decidable (s.QuietTimers elapsed) :=
  decidable_of_iff (¬(s.timerT1.tick elapsed).expired ∧ ¬((s.timerT2.tick elapsed).expired ∧ s.rxPending ≠ 0) ∧
    ¬(s.timerT3.tick elapsed).expired) ⟨fun h => ⟨h.1, h.2.1, h.2.2⟩, fun h => ⟨h.t1, h.t2, h.t3⟩⟩

instance (s : Sock) (watched : Bool) (t : Turn) : Decidable (s.Reads watched t) :=
  decidable_of_iff ((t.ready && watched) ∧ s.QuietTimers t.elapsed ∧ s.payload s.vs = none ∧ t.data s ≠ [])
    ⟨fun h => ⟨h.1, h.2.1, h.2.2.1, h.2.2.2⟩, fun h => ⟨h.ready, h.timers, h.empty, h.data⟩⟩

namespace World

/-- What the socket `p` reads in the turn `t`. -/
def readBy (w : World) (p : Ptr) (t : Turn) : List Bytes :=
  match w.heap p with
  | some s => if s.Reads (w.fdsWatch s.fd) t then [t.data s] else []
  | none => []

/-- The frames sent since `w`. -/
def newSince (w w' : World) : List Bytes := (w'.sent.drop w.sent.length).map Prod.snd

/-- The connection of `p` is open, and frames for it find it. -/
def Open (w : World) (p : Ptr) : Prop := ∃ s, w.Connects p s

end World

/-- A step of the two servers that leaves the connection of `p` and `q` open. -/
inductive PairStep (p q : Ptr) (P : Pair) : Hop → Pair → Prop
  | near {t : Turn} {w' : World} :
    (M.handleSock p t.elapsed t.ready t.inp).after { P.near with sys := t.sys } = some w' → w'.Open p →
    PairStep p q P (.near t) { P with
      near := w', toFar := P.toFar ++ P.near.newSince w', taken := P.taken ++ P.near.readBy p t }
  | far {t : Turn} {w' : World} :
    (M.handleSock q t.elapsed t.ready t.inp).after { P.far with sys := t.sys } = some w' → w'.Open q →
    PairStep p q P (.far t) { P with far := w', toNear := P.toNear ++ P.far.newSince w' }
  | toFar {sys : Sys} {i : Nat} {rest : Mem} {o : Bytes} {l : List Bytes} {w' : World} : P.toFar = o :: l →
    (M.handleFrame i (.ofBytes o rest) o.length).after { P.far with sys } = some w' → w'.Open q →
    PairStep p q P (.toFar sys i rest) { P with far := w', toFar := l, toNear := P.toNear ++ P.far.newSince w' }
  | toNear {sys : Sys} {i : Nat} {rest : Mem} {o : Bytes} {l : List Bytes} {w' : World} : P.toNear = o :: l →
    (M.handleFrame i (.ofBytes o rest) o.length).after { P.near with sys } = some w' → w'.Open p →
    PairStep p q P (.toNear sys i rest) { P with near := w', toFar := P.toFar ++ P.near.newSince w', toNear := l }
  | loseToFar {l l' : List Bytes} {o : Bytes} : P.toFar = l ++ o :: l' →
    PairStep p q P .lose { P with toFar := l ++ l' }
  | loseToNear {l l' : List Bytes} {o : Bytes} : P.toNear = l ++ o :: l' →
    PairStep p q P .lose { P with toNear := l ++ l' }

/-- The octets of the frame that arrives are read as `f`. -/
def Sock.ReadsFrame (s : Sock) (rest : Mem) (o : Bytes) (f : Frame) : Prop :=
  ∃ next, decodeFrame .blank s.format (.ofBytes o rest) o.length = some (f, next)

/-- The steps that stay clear of what the code gets wrong. No driver drops a frame without an error and no write to a
pty fails; no number is so high that its bits are lost; the near end reads only while its window has room; an I frame
that arrives at the far end is not below V(R); and a frame that arrives at the near end acknowledges no more than up to
V(S), unless it is an S frame with P/F set, and asks only for a frame that waits. -/
def Fair (p q : Ptr) (P : Pair) : Hop → Prop
  | .near t => ¬t.sys.ignores ∧ ∀ s, P.near.heap p = some s →
      s.Low ∧ (s.Reads (P.near.fdsWatch s.fd) t → s.acks s.vs < s.nWindowTx)
  | .far t => ¬t.sys.ignores ∧ ∀ u, P.far.heap q = some u → u.Low
  | .toFar sys _ rest => ¬sys.refuses ∧ ∀ u o f, P.far.heap q = some u → P.toFar.head? = some o →
      u.ReadsFrame rest o f → u.Low ∧ (f.type = .i → u.vr ≤ f.ns)
  | .toNear sys _ rest => ¬sys.refuses ∧ ∀ s o f, P.near.heap p = some s → P.toNear.head? = some o →
      s.ReadsFrame rest o f → s.Low ∧ (s.acks f.nr ≤ s.acks s.vs ∨ Patty.controlS f.control ∧ f.pf ≠ 0) ∧
        (f.type = .srej → s.payload f.nr ≠ none)
  | .lose => True

/-- The connection that `s` and `u` are the ends of has just been established: nothing has been sent from `s` to `u`. -/
structure Joined (p q : Ptr) (P : Pair) (s u : Sock) : Prop where
  near : P.near.Connects p s
  far : P.far.Connects q u
  nearEnd : s.End
  farEnd : u.End
  mode : u.mode = s.mode
  there : s.remote.Same u.localAddr
  back : s.localAddr.Same u.remote
  window : s.nWindowTx < s.slots
  vs : s.vs = 0
  va : s.va = 0
  empty : ∀ j, s.payload j = none
  vr : u.vr = 0
  toFar : P.toFar = []
  toNear : P.toNear = []
  taken : P.taken = []

/-! ## What is on the way -/

/-- Octets that the end `u` takes for an I frame with the payload numbered `k`. -/
def IsData (u : Sock) (taken : List Bytes) (o : Bytes) (k : Nat) : Prop :=
  Heard u.format u.localAddr u.remote (fun f => f.nr < u.limit ∧ f.type = .i ∧
    f.proto ≠ PATTY_AX25_PROTO_FRAGMENT ∧ f.ns = k % u.slots ∧ taken[k]? = some f.infoBytes) o

/-- Octets that the end `u` takes for an S frame. -/
def IsSuper (u : Sock) (o : Bytes) : Prop :=
  Heard u.format u.localAddr u.remote (fun f => f.nr < u.limit ∧ f.type.isS) o

/-- Octets that the end `s` takes for an acknowledgement of the payloads below `x`. -/
def IsAck (s : Sock) (o : Bytes) (x : Nat) : Prop :=
  Heard s.format s.localAddr s.remote (fun f => f.nr < s.limit ∧ f.Plain ∧ f.nr = x % s.slots) o

/-- In the state `P` the connection of `s` and `u`, as they were at first, has come to `q`, and has delivered what it
should. -/
structure Pair.Delivers (p q : Ptr) (s u : Sock) (before : List (Nat × Bytes)) (P : Pair) (a : Arq) : Prop where
  near : ∃ s' v, P.near.Connects p s' ∧ s'.End ∧ s.Steady s' ∧ Window s' a.acked v a.next fun k => P.taken.getD k []
  far : ∃ u', P.far.Connects q u' ∧ u'.End ∧ u.Steady u' ∧ u'.vr = a.expected % u.slots
  arq : a.Inv s.nWindowTx
  count : a.next = P.taken.length
  toFar : Arq.Carry (IsData u P.taken) (IsSuper u) P.toFar a.flight
  toNear : Arq.Carry (IsAck s) (fun _ => False) P.toNear a.acks
  written : P.far.written = before ++ (P.taken.take a.expected).map fun bs => (u.fd, bs)

variable {p q : Ptr} {P P' : Pair} {s s' u u' : Sock} {w w' : World} {t : Turn} {sys : Sys} {i : Nat} {rest : Mem}
  {a : Arq} {before : List (Nat × Bytes)} {taken : List Bytes} {o : Bytes} {k : Nat} {f : Frame}

theorem Speaks.newSince {c : Face} {data : Nat → Bytes → Prop} (h : Speaks c data w w') (ho : o ∈ w.newSince w') :
    Utters c data o := by
  obtain ⟨new, hsent, hnew⟩ := h
  rw [World.newSince, hsent, List.drop_left] at ho
  obtain ⟨x, hx, rfl⟩ := List.mem_map.mp ho
  exact hnew x hx

/-- What is heard at the one end is heard at the other, if the stations are the same. -/
theorem Heard.at {format : FrameFormat} {dest dest' src src' : Addr} {Q : Frame → Prop}
    (h : Heard format dest src Q o) (hdest : dest.Same dest') (hsrc : src.Same src') :
    Heard format dest' src' Q o := by
  intro rest
  obtain ⟨f, next, hdec, hd, hs, hf⟩ := h rest
  exact ⟨f, next, hdec, hd.trans hdest, hs.trans hsrc, hf⟩

/-- What the end heard at first it still hears. -/
theorem Heard.now {Q : Frame → Prop} (h : Heard s.format s.localAddr s.remote Q o) (hs : s.Steady s') :
    Heard s'.format s'.localAddr s'.remote Q o := by
  rw [hs.format, hs.localAddr, hs.remote]
  exact h

theorem IsData.append {bs : List Bytes} (h : IsData u taken o k) : IsData u (taken ++ bs) o k := by
  refine Heard.mono h fun f hf => ?_
  obtain ⟨hnr, htype, hproto, hns, hk⟩ := hf
  refine ⟨hnr, htype, hproto, hns, ?_⟩
  obtain ⟨hlt, -⟩ := List.getElem?_eq_some_iff.mp hk
  rw [List.getElem?_append_left hlt, hk]

/-- The two ends of a connection, as they were when it was established. -/
structure Peers (s u : Sock) : Prop where
  mode : u.mode = s.mode
  there : s.remote.Same u.localAddr
  back : s.localAddr.Same u.remote
  window : s.nWindowTx < s.slots

namespace Peers

theorem slots (C : Peers s u) : u.slots = s.slots := Sock.slots_congr C.mode

theorem limit (C : Peers s u) : u.limit = s.limit := by rw [Sock.limit, Sock.limit, C.slots]

theorem format (C : Peers s u) : u.format = s.format := by rw [Sock.format, Sock.format, C.mode]

variable {data : Nat → Bytes → Prop}

/-- What the near end says is data or an S frame for the far end. -/
theorem isData (C : Peers s u) (E : s'.End) (hs : s.Steady s') (hvr : s'.vr < s'.limit) {b v n : Nat}
    (hdata : ∀ seq bs, data seq bs → seq < s'.limit ∧ bs ≠ [] ∧ bs.length ≤ s'.nMaxlenTx)
    (hval : ∀ seq bs, data seq bs → seq = v % u.slots ∧ taken[v]? = some bs ∧ b ≤ v ∧ v < n)
    (h : Utters s'.face data o) : IsData u taken o v ∧ (b ≤ v ∧ v < n) ∨ IsSuper u o := by
  have hlimit : s'.limit = u.limit := hs.limit.trans C.limit.symm
  have hto {Q Q' : Frame → Prop} (h : Heard s'.format s'.remote s'.localAddr Q o) (hQ : ∀ f, Q f → Q' f) :
      Heard u.format u.localAddr u.remote Q' o := by
    rw [hs.format, hs.remote, hs.localAddr, ← C.format] at h
    exact (h.mono hQ).at C.there C.back
  obtain ⟨seq, bs, hd, h⟩ | h := h.heard (E.speakable hvr hdata)
  · obtain ⟨rfl, hk, hlt⟩ := hval seq bs hd
    refine .inl ⟨hto h fun f hf => ?_, hlt⟩
    obtain ⟨hnr, htype, hproto, hns, rfl⟩ := hf
    exact ⟨by rw [hnr, ← hlimit]; exact hvr, htype, hproto ▸ E.proto, hns, hk⟩
  · refine .inr (hto h fun f hf => ?_)
    exact ⟨by rw [hf.1, ← hlimit]; exact hvr, hf.2⟩

/-- What the far end says acknowledges up to V(R). -/
theorem isAck (C : Peers s u) (E : u'.End) (hu : u.Steady u') (hvr : u'.vr < u'.limit) {x : Nat}
    (hdata : ∀ seq bs, data seq bs → seq < u'.limit ∧ bs ≠ [] ∧ bs.length ≤ u'.nMaxlenTx)
    (hx : u'.vr = x % u.slots) (h : Utters u'.face data o) : IsAck s o x := by
  have hlimit : u'.limit = s.limit := hu.limit.trans C.limit
  have hto {Q : Frame → Prop} (h : Heard u'.format u'.remote u'.localAddr Q o)
      (hQ : ∀ f, Q f → f.nr = u'.vr ∧ f.Plain) : IsAck s o x := by
    rw [hu.format, hu.remote, hu.localAddr, C.format] at h
    refine (h.mono fun f hf => ?_).at C.back.symm C.there.symm
    obtain ⟨hnr, hplain⟩ := hQ f hf
    exact ⟨by rw [hnr, ← hlimit]; exact hvr, hplain, by rw [hnr, hx, C.slots]⟩
  obtain ⟨seq, bs, -, h⟩ | h := h.heard (E.speakable hvr hdata)
  · exact hto h fun f hf => ⟨hf.1, .inl ⟨hf.2.1, hf.2.2.1 ▸ E.proto⟩⟩
  · exact hto h fun f hf => ⟨hf.1, .inr hf.2⟩

end Peers

/-! ## The window of the near end -/

namespace Window

variable {v n : Nat} {val val' : Nat → Bytes} {b : Nat}

/-- The window holds the values that are outstanding. -/
theorem congr_val (W : Window s b v n val) (h : ∀ i, b ≤ i → i < n → val' i = val i) : Window s b v n val' where
  __ := W
  holds :=
    { le := W.holds.le
      fits := W.holds.fits
      live := fun i h1 h2 => by rw [h i h1 h2]; exact W.holds.live i h1 h2
      only := W.holds.only }

/-- What is outstanding is in its slot. -/
theorem payload_eq (W : Window s b v taken.length fun k => taken.getD k []) (h1 : b ≤ k) (h2 : k < taken.length) :
    s.payload (k % s.slots) = taken[k]? := by
  rw [W.holds.live k h1 h2, List.getD_eq_getElem?_getD, List.getElem?_eq_getElem h2, Option.getD_some]

theorem getD_append {bs : Bytes} (h : k < taken.length + 1) :
    (taken ++ [bs]).getD k [] = Function.update (fun k => taken.getD k []) taken.length bs k := by
  obtain hlt | rfl := Nat.lt_succ_iff_lt_or_eq.mp h
  · rw [Function.update_of_ne hlt.ne, List.getD_eq_getElem?_getD, List.getElem?_append_left hlt,
      ← List.getD_eq_getElem?_getD]
  · rw [Function.update_self, List.getD_eq_getElem?_getD, List.getElem?_concat_length, Option.getD_some]

/-- A turn that reads adds a number to the window. -/
theorem reads {watched : Bool} (W : Window s b v taken.length fun k => taken.getD k [])
    (hM : s.nWindowTx < s.slots) (hreads : s.Reads watched t) (hroom : s.acks s.vs < s.nWindowTx)
    (A : Sock.End.AfterTurn s watched t w s' w') :
    v = taken.length ∧ taken.length < b + s.nWindowTx ∧
      ∃ v', Window s' b v' (taken.length + 1) fun k => (taken ++ [t.data s]).getD k [] := by
  have hv := W.eq_next hreads.empty
  have hle := W.le_vs
  rw [W.acks_vs] at hroom
  subst hv
  refine ⟨rfl, by omega, ?_⟩
  have hval {r : Sock} {v' : Nat} (h : Window r b v' (taken.length + 1)
      (Function.update (fun k => taken.getD k []) taken.length (t.data s))) :
      Window r b v' (taken.length + 1) fun k => (taken ++ [t.data s]).getD k [] :=
    h.congr_val fun i _ hi => getD_append hi
  obtain ⟨buf, hsaves, hl⟩ := A.turned.read hreads
  obtain ⟨n', hgt, -, hn', W'⟩ := W.save hsaves (fun _ => by omega)
    (show ({ s with txSlots := some buf } : Sock).link = _ from rfl)
  obtain rfl : n' = taken.length + 1 := by omega
  obtain hl | hl := hl
  · exact ⟨_, hval (W'.link hl)⟩
  · refine ⟨_, hval (W'.move (show b ≤ taken.length + 1 by omega) le_rfl ?_)⟩
    rw [hl, W.txSeq_vs]
    rfl

/-- A turn that does not read leaves the window where it is. -/
theorem rests {watched : Bool} (W : Window s b v n val) (hign : ¬t.sys.ignores) (hreads : ¬s.Reads watched t)
    (h : TurnEffect s watched t s'.link) : ∃ v', Window s' b v' n val := by
  generalize hl : s'.link = l at h
  cases h with
  | idle => exact ⟨v, W.link hl⟩
  | resent hpay =>
    have hle := W.le_vs
    have hlt := W.lt_next hpay
    rw [W.txSeq_vs] at hl
    exact ⟨v + 1, W.move (by omega) hlt hl⟩
  | read hat =>
    obtain ⟨hnone, -⟩ | ⟨-, hig, -⟩ := hat.seq
    · exact absurd ⟨hat.ready, hat.timers, hnone, hat.data⟩ hreads
    · exact absurd hig hign

/-- A frame that acknowledges up to a number of the window takes the window there. -/
theorem ack_at (W : Window s b v n val) (h : s.Acked f s') {x : Nat} (hnr : f.nr = x % s.slots) (h1 : b ≤ x)
    (h2 : x ≤ n) (hbound : s.acks f.nr ≤ s.acks s.vs ∨ Patty.controlS f.control ∧ f.pf ≠ 0) :
    ∃ v', Window s' x v' n val := by
  have hfits := W.fits
  have hlt : f.nr < s.slots := hnr ▸ Nat.mod_lt _ s.slots_pos
  have hacks : s.acks f.nr = x - b := by
    rw [Sock.acks, W.va, hnr, Ring.dist_mod s.slots_pos h1 (by omega)]
  have hwaits {k : Nat} (hk : k < x - b) : s.payload (s.va + k) ≠ none := by
    have hlive := W.holds.live (b + k) (by omega) (by omega)
    rw [Window.payload_mod] at hlive
    rw [← Sock.payload_txSeq, Sock.txSeq, W.va, Nat.mod_add_mod, Window.payload_mod, hlive]
    exact Option.some_ne_none _
  obtain ⟨r, v', hbr, hrn, W'⟩ := W.ack h hlt (fun k hk => hwaits (hacks ▸ hk)) hbound
  have hslots : s'.slots = s.slots := Sock.slots_congr (congrArg Link.mode h.link)
  -- V(A) is N(R) now, which `x` is the only number in the window for
  have hva : s'.va = x % s.slots := by
    obtain rfl | hpos := Nat.eq_or_lt_of_le h1
    · rw [h.va_same fun k hk => absurd hk (by omega), W.va]
    · rw [h.va_last (by omega) (hwaits (by omega)), hnr]
  have hrx : r % s.slots = x % s.slots := by rw [← hslots, ← W'.va, hslots, hva]
  obtain rfl := Ring.eq_of_window hrx hbr (by omega) h1 (by omega)
  exact ⟨v', W'⟩

end Window

/-! ## Steps -/

namespace Pair.Delivers

variable {l l' : List Bytes} {v : Nat}

/-- The near end sends what is outstanding, or S frames. -/
theorem sends (D : P.Delivers p q s u before a) {new : List Bytes}
    (h : ∀ o ∈ new, IsData u P.taken o k ∧ (a.acked ≤ k ∧ k < a.next) ∨ IsSuper u o) :
    ∃ a', Pair.Delivers p q s u before { P with toFar := P.toFar ++ new } a' := by
  obtain ⟨ks, hks, hall⟩ := Arq.Carry.of_forall h
  refine ⟨a.send ks, D.near, D.far, D.arq.send fun j hj => ?_, D.count, D.toFar.append hks, D.toNear, D.written⟩
  obtain ⟨rfl, hk⟩ := hall j hj
  exact hk

/-- The far end acknowledges up to what it expects. -/
theorem answers (D : P.Delivers p q s u before a) {new : List Bytes} (h : ∀ o ∈ new, IsAck s o a.expected) :
    ∃ a', Pair.Delivers p q s u before { P with toNear := P.toNear ++ new } a' :=
  ⟨a.answer new.length, D.near, D.far, D.arq.answer _, D.count, D.toFar, D.toNear.append (.replicate h), D.written⟩

/-- The near end reads. -/
theorem fresh (D : P.Delivers p q s u before a) {bs : Bytes} (hroom : a.next < a.acked + s.nWindowTx)
    (hserves : w'.Connects p s') (E : s'.End) (hs : s.Steady s')
    (W : Window s' a.acked v (a.next + 1) fun k => (P.taken ++ [bs]).getD k []) :
    Pair.Delivers p q s u before { P with near := w', taken := P.taken ++ [bs] } a.fresh where
  near := ⟨s', v, hserves, E, hs, W⟩
  far := D.far
  arq := D.arq.fresh hroom
  count := by
    rw [Arq.fresh, List.length_append, D.count]
    rfl
  toFar := D.toFar.mono (fun _ _ h => h.append) fun _ h => h
  toNear := D.toNear
  written := by
    have hle : a.expected ≤ P.taken.length := D.count ▸ D.arq.expected_le
    rw [Arq.fresh, List.take_append_of_le_length hle]
    exact D.written

/-- The near end goes on with the same window. -/
theorem goes (D : P.Delivers p q s u before a) (hserves : w'.Connects p s') (E : s'.End) (hs : s.Steady s')
    (W : Window s' a.acked v a.next fun k => P.taken.getD k []) :
    Pair.Delivers p q s u before { P with near := w' } a where
  __ := D
  near := ⟨s', v, hserves, E, hs, W⟩

/-- In its turn the near end reads, sends what waits, or rests. -/
theorem nearTurn (C : Peers s u) (D : P.Delivers p q s u before a) (hign : ¬t.sys.ignores)
    (hfair : ∀ s, P.near.heap p = some s → s.Low ∧ (s.Reads (P.near.fdsWatch s.fd) t → s.acks s.vs < s.nWindowTx))
    (h : (M.handleSock p t.elapsed t.ready t.inp).after { P.near with sys := t.sys } = some w') (hopen : w'.Open p) :
    ∃ a', Pair.Delivers p q s u before { P with
      near := w', toFar := P.toFar ++ P.near.newSince w', taken := P.taken ++ P.near.readBy p t } a' := by
  obtain ⟨s₁, v, hserves, E, hs, W⟩ := D.near
  obtain ⟨s₂, hserves₂⟩ := hopen
  obtain ⟨hlow, hroom⟩ := hfair s₁ hserves.heap
  have A := E.turn hserves.heap hign h hserves₂.heap hserves₂.state
  have hs₂ : s.Steady s₂ := hs.trans A.steady
  have hslots : s₁.slots = u.slots := hs.slots.trans C.slots.symm
  have hvs : s₁.vs = v % u.slots := hslots ▸ W.vs
  have hle := W.le_vs
  by_cases hreads : s₁.Reads (P.near.fdsWatch s₁.fd) t
  · have htakes : P.near.readBy p t = [t.data s₁] := by
      rw [World.readBy, hserves.heap]
      exact if_pos hreads
    have hM : s₁.nWindowTx < s₁.slots := by
      rw [hs.nWindowTx, hs.slots]
      exact C.window
    rw [D.count] at W
    obtain ⟨rfl, hfull, v', W'⟩ := W.reads hM hreads (hroom hreads) A
    rw [← D.count, hs.nWindowTx] at hfull
    rw [← D.count] at W'
    rw [htakes]
    refine (D.fresh hfull hserves₂ A.isEnd hs₂ W').sends (k := P.taken.length) fun o ho => ?_
    refine C.isData E hs (hlow.vr E.vr) (fun _ _ => E.turnData hlow) (fun seq bs hd => ?_)
      (A.turned.speaks.newSince ho)
    obtain ⟨rfl, hpay | ⟨-, rfl⟩⟩ := hd
    · rw [hreads.empty] at hpay
      cases hpay
    · exact ⟨hvs, List.getElem?_concat_length, hle, by rw [Arq.fresh, D.count]; exact Nat.lt_succ_self _⟩
  · have htakes : P.near.readBy p t = [] := by
      rw [World.readBy, hserves.heap]
      exact if_neg hreads
    obtain ⟨v', W'⟩ := W.rests hign hreads A.effect
    rw [htakes, List.append_nil]
    refine (D.goes hserves₂ A.isEnd hs₂ W').sends (k := v) fun o ho => ?_
    refine C.isData E hs (hlow.vr E.vr) (fun _ _ => E.turnData hlow) (fun seq bs hd => ?_)
      (A.turned.speaks.newSince ho)
    obtain ⟨rfl, hpay | ⟨hr, -⟩⟩ := hd
    · have hlt := W.lt_next (by simp [hpay])
      rw [D.count] at W
      rw [W.vs, W.payload_eq hle (D.count ▸ hlt)] at hpay
      exact ⟨hvs, hpay, hle, hlt⟩
    · exact absurd hr hreads

/-- The frame that arrives at the near end acknowledges, and may ask for a frame. -/
theorem toNear_step (C : Peers s u) (D : P.Delivers p q s u before a) (hpty : ¬sys.refuses) (hch : P.toNear = o :: l)
    (hfair : ∀ s o f, P.near.heap p = some s → P.toNear.head? = some o → s.ReadsFrame rest o f →
      s.Low ∧ (s.acks f.nr ≤ s.acks s.vs ∨ Patty.controlS f.control ∧ f.pf ≠ 0) ∧
        (f.type = .srej → s.payload f.nr ≠ none))
    (h : (M.handleFrame i (.ofBytes o rest) o.length).after { P.near with sys } = some w') (hopen : w'.Open p) :
    ∃ a', Pair.Delivers p q s u before { P with
      near := w', toFar := P.toFar ++ P.near.newSince w', toNear := l } a' := by
  obtain ⟨s₁, v, hserves, E, hs, W⟩ := D.near
  obtain ⟨s₂, hserves₂⟩ := hopen
  have hcarry := D.toNear
  rw [hch] at hcarry
  generalize hacks : a.acks = xs at hcarry
  cases hcarry with
  | plain hno => exact hno.elim
  | @num _ x _ xs hR hcarry =>
    obtain ⟨f, next, hdec, hdest, hsrc, hnr, hplain, hx⟩ := Heard.now hR hs rest
    rw [← hs.slots] at hx
    obtain ⟨hlow, hbound, hsrej⟩ := hfair s₁ o f hserves.heap (by rw [hch]; rfl) ⟨next, hdec⟩
    have hlt : f.nr < s₁.slots := hx ▸ Nat.mod_lt _ s₁.slots_pos
    have A := E.arrival hserves hpty hdec hdest hsrc hlt hplain h hserves₂.heap hserves₂.state
    obtain ⟨s₃, hacked, hl⟩ := A.acked
    obtain ⟨hax, hxn⟩ := D.arq.ack_range (hacks ▸ List.mem_cons_self : x ∈ a.acks)
    obtain ⟨v', W₃⟩ := W.ack_at hacked hx hax hxn hbound
    have W₂ := W₃.link hl
    have D₁ : Pair.Delivers p q s u before { P with near := w', toNear := l } (a.ack x xs) :=
      { D with near := ⟨s₂, v', hserves₂, A.isEnd, hs.trans A.steady, W₂⟩, arq := D.arq.ack hacks, toNear := hcarry }
    refine D₁.sends (k := x) fun o ho => ?_
    have hs₂ := hs.trans A.steady
    refine C.isData A.isEnd hs₂ (A.vr E hlow) (fun seq bs hd => ?_) (fun seq bs hd => ?_)
      (A.answered.speaks.newSince ho)
    · obtain ⟨-, rfl, hne, hlen, -⟩ := hd
      exact ⟨hs₂.limit ▸ hnr, hne, hlen⟩
    · -- SREJ asks for a payload that waits, and that is still there once the frame has acknowledged
      obtain ⟨htype, rfl, -, -, hpay⟩ := hd
      have hwaits := hsrej htype
      have hxlt : x < a.next := by
        refine hxn.lt_of_ne fun hxa => hwaits ?_
        rw [hx, hxa]
        exact W.holds.next_empty W.fits
      have hslots : s₂.slots = s₁.slots := A.steady.slots
      rw [D.count] at W₂ hxlt
      have hcell := W₂.payload_eq le_rfl hxlt
      rw [hslots, ← hx, List.getElem?_eq_getElem hxlt] at hcell
      refine ⟨hx.trans ?_, ?_, le_rfl, D.count ▸ hxlt⟩
      · rw [hs.slots, C.slots]
      · rw [hpay _ hcell]
        exact List.getElem?_eq_getElem hxlt

/-- The turns of the far end acknowledge what it has. -/
theorem farTurn (C : Peers s u) (D : P.Delivers p q s u before a) (hign : ¬t.sys.ignores)
    (hfair : ∀ u, P.far.heap q = some u → u.Low)
    (h : (M.handleSock q t.elapsed t.ready t.inp).after { P.far with sys := t.sys } = some w') (hopen : w'.Open q) :
    ∃ a', Pair.Delivers p q s u before { P with far := w', toNear := P.toNear ++ P.far.newSince w' } a' := by
  obtain ⟨u₁, hserves, E, hu, hvr⟩ := D.far
  obtain ⟨u₂, hserves₂⟩ := hopen
  have hlow := hfair u₁ hserves.heap
  have A := E.turn hserves.heap hign h hserves₂.heap hserves₂.state
  have D₁ : Pair.Delivers p q s u before { P with far := w' } a :=
    { D with
      far := ⟨u₂, hserves₂, A.isEnd, hu.trans A.steady, A.vr.trans hvr⟩
      written := A.turned.written.trans D.written }
  refine D₁.answers fun o ho => ?_
  exact C.isAck E hu (hlow.vr E.vr) (fun _ _ => E.turnData hlow) hvr (A.turned.speaks.newSince ho)

/-- The far end passes on the frame that it expects, and no other. -/
theorem toFar_step (C : Peers s u) (D : P.Delivers p q s u before a) (hpty : ¬sys.refuses) (hch : P.toFar = o :: l)
    (hfair : ∀ u o f, P.far.heap q = some u → P.toFar.head? = some o → u.ReadsFrame rest o f →
      u.Low ∧ (f.type = .i → u.vr ≤ f.ns))
    (h : (M.handleFrame i (.ofBytes o rest) o.length).after { P.far with sys } = some w') (hopen : w'.Open q) :
    ∃ a', Pair.Delivers p q s u before { P with
      far := w', toFar := l, toNear := P.toNear ++ P.far.newSince w' } a' := by
  obtain ⟨u₁, hserves, E, hu, hvr⟩ := D.far
  obtain ⟨u₂, hserves₂⟩ := hopen
  -- what is known once the frame is decoded
  have hdone (a₁ : Arq) {f : Frame} {next : Nat} (hdec : decodeFrame .blank u₁.format (.ofBytes o rest) o.length =
        some (f, next)) (hdest : f.dest.Same u₁.localAddr) (hsrc : f.src.Same u₁.remote) (hnr : f.nr < u₁.limit)
      (hplain : f.Plain)
      (hD : ∀ u₂, Sock.End.AfterFrame u₁ f P.far u₂ w' → w'.Connects q u₂ →
        (f.type = .i → u₁.vr ≤ f.ns) → Pair.Delivers p q s u before { P with far := w', toFar := l } a₁ ∧
        u₂.vr = a₁.expected % u.slots) :
      ∃ a', Pair.Delivers p q s u before { P with
        far := w', toFar := l, toNear := P.toNear ++ P.far.newSince w' } a' := by
    obtain ⟨hlow, hns⟩ := hfair u₁ o f hserves.heap (by rw [hch]; rfl) ⟨next, hdec⟩
    have A := E.arrival hserves hpty hdec hdest hsrc (Sock.lt_slots hnr) hplain h hserves₂.heap hserves₂.state
    obtain ⟨D₁, hvr₂⟩ := hD u₂ A hserves₂ hns
    have hu₂ := hu.trans A.steady
    refine D₁.answers fun o ho => ?_
    refine C.isAck A.isEnd hu₂ (A.vr E hlow) (fun seq bs hd => ?_) hvr₂ (A.answered.speaks.newSince ho)
    obtain ⟨-, rfl, hne, hlen, -⟩ := hd
    exact ⟨A.steady.limit ▸ hnr, hne, hlen⟩
  -- a frame that is not expected leaves V(R), and is not passed on
  have hstays (a₁ : Arq) {f : Frame} {u₂ : Sock} (A : Sock.End.AfterFrame u₁ f P.far u₂ w') (hE : ¬u₁.Expects f)
      (hns : f.type = .i → u₁.vr ≤ f.ns) (hexp : a₁.expected = a.expected) : u₂.vr = a₁.expected % u.slots ∧
      w'.written = before ++ (P.taken.take a₁.expected).map fun bs => (u.fd, bs) := by
    refine ⟨?_, ?_⟩
    · rw [show u₂.vr = _ from congrArg Face.vr A.answered.face, if_neg hE, hexp]
      exact hvr
    · have hno : ¬(f.type = .i ∧ f.ns ≤ u₁.vr) := fun h => hE ⟨h.1, h.2.antisymm (hns h.1)⟩
      rw [A.answered.written, Sock.toPty, if_neg hno, List.append_nil, hexp]
      exact D.written
  have hcarry := D.toFar
  rw [hch] at hcarry
  generalize hflight : a.flight = ks at hcarry
  cases hcarry with
  | plain hS hcarry =>
    obtain ⟨f, next, hdec, hdest, hsrc, hnr, htype⟩ := Heard.now hS hu rest
    rw [← hu.limit] at hnr
    refine hdone a hdec hdest hsrc hnr (.inr htype) fun u₂ A hserves₂ hns => ?_
    have hE : ¬u₁.Expects f := fun h => by
      rw [h.1] at htype
      cases htype
    obtain ⟨hvr₂, hwritten⟩ := hstays a A hE hns rfl
    exact ⟨{ D with
      far := ⟨u₂, hserves₂, A.isEnd, hu.trans A.steady, hvr₂⟩
      toFar := hflight ▸ hcarry, written := hwritten }, hvr₂⟩
  | @num _ k _ ks hR hcarry =>
    obtain ⟨f, next, hdec, hdest, hsrc, hnr, htype, hproto, hk, hinfo⟩ := Heard.now hR hu rest
    rw [← hu.limit] at hnr
    by_cases hE : u₁.Expects f
    · -- its number is the one that is expected, and not one that looks the same
      have hM : s.nWindowTx < u.slots := C.slots ▸ C.window
      obtain rfl : k = a.expected := by
        refine D.arq.eq_expected hM (hflight ▸ List.mem_cons_self) ?_
        rw [← hk, ← hvr]
        exact hE.2
      refine hdone (a.take ks) hdec hdest hsrc hnr (.inl ⟨htype, hproto⟩) fun u₂ A hserves₂ hns => ?_
      have hvr₂ : u₂.vr = (a.expected + 1) % u.slots := by
        rw [show u₂.vr = _ from congrArg Face.vr A.answered.face, if_pos hE, hu.slots, hvr, Nat.mod_add_mod]
      refine ⟨{ D with
        far := ⟨u₂, hserves₂, A.isEnd, hu.trans A.steady, hvr₂⟩
        arq := D.arq.take hflight, toFar := hcarry, written := ?_ }, hvr₂⟩
      have hle : f.type = .i ∧ f.ns ≤ u₁.vr := ⟨htype, hE.2.le⟩
      rw [A.answered.written, Sock.toPty, if_pos hle, D.written, Arq.take, List.take_add_one, hinfo, hu.fd,
        List.append_assoc, List.map_append]
      rfl
    · refine hdone (a.keep ks) hdec hdest hsrc hnr (.inl ⟨htype, hproto⟩) fun u₂ A hserves₂ hns => ?_
      obtain ⟨hvr₂, hwritten⟩ := hstays (a.keep ks) A hE hns rfl
      exact ⟨{ D with
        far := ⟨u₂, hserves₂, A.isEnd, hu.trans A.steady, hvr₂⟩
        arq := D.arq.keep (hflight ▸ List.sublist_cons_self ..), toFar := hcarry, written := hwritten }, hvr₂⟩

/-- What has been delivered stays delivered in every step. -/
theorem step {x : Hop} (C : Peers s u) (D : P.Delivers p q s u before a) (hfair : Fair p q P x)
    (h : PairStep p q P x P') : ∃ a', P'.Delivers p q s u before a' := by
  cases h with
  | near hrun hopen => exact D.nearTurn C hfair.1 hfair.2 hrun hopen
  | far hrun hopen => exact D.farTurn C hfair.1 hfair.2 hrun hopen
  | toFar hch hrun hopen => exact D.toFar_step C hfair.1 hch hfair.2 hrun hopen
  | toNear hch hrun hopen => exact D.toNear_step C hfair.1 hch hfair.2 hrun hopen
  | loseToFar hch =>
    obtain ⟨ks, hsub, hks⟩ := (hch ▸ D.toFar : Arq.Carry _ _ _ a.flight).lose
    exact ⟨a.keep ks, { D with arq := D.arq.keep hsub, toFar := hks }⟩
  | loseToNear hch =>
    obtain ⟨ks, hsub, hks⟩ := (hch ▸ D.toNear : Arq.Carry _ _ _ a.acks).lose
    exact ⟨a.keepAcks ks, { D with arq := D.arq.keepAcks hsub, toNear := hks }⟩

/-- Nothing has been delivered at first. -/
theorem start (h : Joined p q P s u) : P.Delivers p q s u P.far.written ⟨0, 0, 0, [], []⟩ where
  near := by
    refine ⟨s, 0, h.near, h.nearEnd, .refl s, h.nearEnd.mode, h.nearEnd.slots, ?_, ?_, le_rfl, le_rfl, ?_, ?_⟩
    · rw [h.va, Nat.zero_mod]
    · rw [h.vs, Nat.zero_mod]
    · rw [Nat.zero_add]
      exact s.slots_pos
    · exact Ring.Holds.empty (fun j _ => h.empty j) 0
  far := ⟨u, h.far, h.farEnd, .refl u, by rw [h.vr, Nat.zero_mod]⟩
  arq := Arq.Inv.start s.nWindowTx
  count := by
    rw [h.taken]
    rfl
  toFar := by
    rw [h.toFar]
    exact .nil
  toNear := by
    rw [h.toNear]
    exact .nil
  written := (List.append_nil _).symm

end Pair.Delivers

/-- The other end of the connection of `acceptedSock`. -/
def facingSock : Sock := { acceptedSock with localAddr := acceptedSock.remote, remote := acceptedSock.localAddr }

/-- A server with the socket `s`, which frames for it find. -/
def World.joined (s : Sock) : World := { World.withSock s with socksRemote := AList.insert s.pairKey 0 ∅ }

def joinedPair : Pair := ⟨.joined acceptedSock, .joined facingSock, [], [], []⟩

theorem end_acceptedSock : acceptedSock.End where
  type := rfl
  state := rfl
  mode := by decide
  addressed := by
    refine ⟨?_, ?_, by decide, fun i h => absurd h (Nat.not_lt_zero _)⟩
    · exact show decodeCallsign _ false by decide
    · exact show decodeCallsign _ false by decide
  small := by decide
  ioBuf := Option.some_ne_none _
  proto := by decide
  slots := ⟨_, acceptedSock_slots⟩
  vs := by decide
  va := by decide
  vr := by decide

theorem end_facingSock : facingSock.End where
  __ := end_acceptedSock
  addressed := ⟨end_acceptedSock.addressed.localAddr, end_acceptedSock.addressed.remote, by decide,
    fun i h => absurd h (Nat.not_lt_zero _)⟩
  slots := ⟨_, acceptedSock_slots.link rfl⟩

theorem connects_joined {s : Sock} (h : s.state = .established) : (World.joined s).Connects 0 s where
  heap := (M.heap_setSock : (World.withSock s).heap 0 = some s)
  state := h
  lookup := AList.lookup_insert _

theorem joined_joinedPair : Joined 0 0 joinedPair acceptedSock facingSock where
  near := connects_joined rfl
  far := connects_joined rfl
  nearEnd := end_acceptedSock
  farEnd := end_facingSock
  mode := rfl
  there := .refl _
  back := .refl _
  window := by decide
  vs := rfl
  va := rfl
  empty := acceptedSock_empty
  vr := rfl
  toFar := rfl
  toNear := rfl
  taken := rfl

/-- The frame with the first payload. -/
def byteOctets : Bytes := acceptedSock.frameOctets .command (acceptedSock.controlI 0) 0xf0 [0x61]

/-- Frames for the connection of `p` find it, and it is open. -/
def World.opens (w : World) (p : Ptr) : Bool :=
  (w.heap p).any fun s => s.state = .established && w.socksRemote.lookup s.pairKey = some p

theorem open_of_opens (h : w.opens p) : w.Open p := by
  obtain ⟨s, hp, hs⟩ := Option.any_eq_true _ _ |>.mp h
  obtain ⟨hstate, hlook⟩ := Bool.and_eq_true_iff.mp hs
  exact ⟨s, hp, of_decide_eq_true hstate, of_decide_eq_true hlook⟩

end Patty
