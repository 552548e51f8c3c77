import Patty.AprsIs.Send

/-! # From a frame to a line and back

The line of an UI frame, in whatever reads it comes, makes the decoder complete the frame again
(`roundTrips_line`). `patty_ax25_aprs_is_send` writes that line exactly as long as it has not logged in again: when
a write is repeated behind a login, the text of the login is written (`send_iff`). -/

namespace Patty

namespace AprsIs

/-- A fill and a drain for each read; none if a drain fails. -/
def drainReads (len : Nat) : List Bytes → AprsIs → Mem → Except Fault (Option (AprsIs × Mem))
  | [], aprs, out => .ok (some (aprs, out))
  | bs :: reads, aprs, out =>
    match (aprs.fill bs).drain out len with
    | .error e => .error e
    | .ok (r, aprs, out) => if r < 0 then .ok none else drainReads len reads aprs out

/-- The octets are an UI frame with the PID for no protocol, stations with letters and digits, and a payload that
fits a line. -/
structure Sendable (frame : Frame) (buf : Mem) (len : Nat) (f : Frame) : Prop where
  decodes : ∃ next, decodeFrame frame .normal buf len = some (f, next)
  ui : controlUI f.control
  proto : f.proto = PATTY_AX25_PROTO_NONE
  dest : f.dest.Lettered
  src : f.src.Lettered
  hops : f.hops ≤ PATTY_AX25_MAX_HOPS
  repeaters : ∀ i : Fin PATTY_AX25_MAX_HOPS, i.val < f.hops → (f.repeaters i).Lettered
  ne : f.infoBytes ≠ []
  length : f.infoBytes.length ≤ PATTY_AX25_APRS_IS_PAYLOAD_MAX
  chars : ∀ b ∈ f.infoBytes, b ≠ 0x0d ∧ b ≠ 0x0a

/-- An UI frame with the same stations and the same payload. -/
structure Carries (f f' : Frame) : Prop where
  dest : f'.dest.Same f.dest
  src : f'.src.Same f.src
  hops : f'.hops = f.hops
  repeaters : ∀ i : Fin PATTY_AX25_MAX_HOPS, i.val < f.hops → (f'.repeaters i).Same (f.repeaters i)
  ui : controlUI f'.control
  proto : f'.proto = PATTY_AX25_PROTO_NONE
  info : f'.infoBytes = f.infoBytes

/-- In whatever reads the octets come, a new decoder completes a frame of them that carries `f`. -/
def RoundTrips (f : Frame) (bs : Bytes) : Prop :=
  ∀ reads : List Bytes, (∀ r ∈ reads, r ≠ []) → reads.flatten = bs → ∀ out, ∃ aprs out',
    drainReads PATTY_AX25_IF_DEFAULT_MRU reads new out = .ok (some (aprs, out')) ∧ aprs.pending ∧
      ∀ frame, ∃ f' next, decodeFrame frame .normal out' aprs.encoded = some (f', next) ∧ Carries f f'

/-- The logins that are formatted before the write that succeeds, if one does. -/
def loginsBefore : Nat → List Write → Option (List Bytes)
  | _, [] => some []
  | _, .done :: _ => some []
  | _, .failed :: _ => none
  | attempt, .lost login :: writes =>
    if attempt + 1 = PATTY_AX25_APRS_IS_ATTEMPTS_MAX then none
    else (loginsBefore (attempt + 1) writes).map (login.toList ++ ·)

variable {aprs aprs' : AprsIs} {len o : Nat} {bs : Bytes} {out txBuf buf : Mem} {f frame : Frame} {writes : List Write}

/-! ## The line is read -/

theorem drainReads_feed {reads : List Bytes} (hs : aprs.state ≠ .complete) (h : aprs.feed reads.flatten = some aprs')
    (more : List Bytes) (rx : Bytes) (i : Nat) : ∃ rx' i',
      drainReads len (reads ++ more) (aprs.inRead rx i) out = drainReads len more (aprs'.inRead rx' i') out := by
  induction reads generalizing aprs rx i with
  | nil =>
    cases h
    exact ⟨rx, i, rfl⟩
  | cons bs reads ih =>
    rw [List.flatten_cons, feed_append, Option.bind_eq_some_iff] at h
    obtain ⟨a, ha, h⟩ := h
    have hloop : drainLoop len bs (aprs.inRead bs 0) out = .ok (true, a.inRead bs bs.length, out) := by
      have := @drainLoop_feed aprs a len 0 bs bs [] out ha
      rwa [List.append_nil, Nat.zero_add] at this
    obtain ⟨rx', i', hrest⟩ := ih (feed_state hs ha) h bs bs.length
    refine ⟨rx', i', ?_⟩
    rw [List.cons_append, drainReads, drain_fill, inRead_inRead, hloop]
    dsimp only
    rw [if_neg (by omega), hrest]

/-- A line that the decoder completes at its line feed. -/
theorem drainReads_packet {reads : List Bytes} {text : Bytes} (hne : ∀ r ∈ reads, r ≠ [])
    (hline : reads.flatten = text ++ [0x0a]) (h : new.feed text = some aprs)
    (hends : aprs.drainByte 0x0a = .packet aprs') (hencode : aprs'.frame.encode len = .ok (some bs)) : ∃ rx i,
      drainReads len reads new out = .ok (some ({ aprs'.inRead rx i with encoded := bs.length }, out.store 0 bs)) := by
  obtain ⟨init, last, rfl⟩ := List.eq_nil_or_concat reads |>.resolve_left (by rintro rfl; simp at hline)
  rw [List.concat_eq_append] at hne hline ⊢
  obtain ⟨pre, c, rfl⟩ := List.eq_nil_or_concat last |>.resolve_left (hne last (by simp))
  rw [List.concat_eq_append] at hline ⊢
  rw [List.flatten_append, List.flatten_singleton, ← List.append_assoc] at hline
  obtain ⟨rfl, hc⟩ := List.append_inj' hline rfl
  cases hc
  rw [feed_append, Option.bind_eq_some_iff] at h
  obtain ⟨a, ha, h⟩ := h
  obtain ⟨rx, i, hinit⟩ := @drainReads_feed new a len out init (by simp [new]) ha [pre ++ [0x0a]] [] 0
  have hloop : drainLoop len (pre ++ [0x0a]) (a.inRead (pre ++ [0x0a]) 0) out = .ok (true,
      { aprs'.inRead (pre ++ [0x0a]) (pre.length + 1) with encoded := bs.length }, out.store 0 bs) := by
    rw [drainLoop_feed h, Nat.zero_add, drainLoop]
    have hnext : { aprs.inRead (pre ++ [0x0a]) pre.length with
        offsetI := (aprs.inRead (pre ++ [0x0a]) pre.length).offsetI + 1 } =
        aprs.inRead (pre ++ [0x0a]) (pre.length + 1) := rfl
    have hframe : (aprs'.inRead (pre ++ [0x0a]) (pre.length + 1)).frame.encode len = .ok (some bs) := hencode
    rw [hnext, drainByte_inRead, hends]
    dsimp only [Fed.inRead]
    rw [hframe]
  refine ⟨pre ++ [0x0a], pre.length + 1, hinit.trans ?_⟩
  rw [drainReads, drain_fill, inRead_inRead, hloop]
  dsimp only
  rw [if_neg (by omega)]
  rfl

/-- The callsigns of the repeaters. -/
theorem calls_of_lettered {l : List Addr} (h : ∀ a ∈ l, a.Lettered) :
    ∃ hops, List.Forall₂ Addr.Writes l hops ∧ ∀ c ∈ hops, c.Valid ∧ c.addr.WellFormed := by
  induction l with
  | nil => exact ⟨[], .nil, by simp⟩
  | cons a l ih =>
    rw [List.forall_mem_cons] at h
    obtain ⟨c, hc⟩ := h.1.writes
    obtain ⟨hops, hhops, hvalid⟩ := ih h.2
    exact ⟨c :: hops, .cons hc hhops, List.forall_mem_cons.mpr ⟨⟨hc.valid, hc.wellFormed⟩, hvalid⟩⟩

/-- The packet of a frame. -/
structure PacketOf (f : Frame) (p : Packet) : Prop where
  src : f.src.Writes p.src
  dest : f.dest.Writes p.dest
  hops : List.Forall₂ Addr.Writes (hopList f.repeaters f.hops) p.hops
  count : p.hops.length = f.hops
  wellFormed : ∀ c ∈ p.hops, c.addr.WellFormed
  body : p.body = f.infoBytes
  cr : p.cr = true

theorem Sendable.packet (h : Sendable frame buf len f) : ∃ p, PacketOf f p ∧ p.Valid := by
  obtain ⟨src, hsrc⟩ := h.src.writes
  obtain ⟨dest, hdest⟩ := h.dest.writes
  obtain ⟨hops, hhops, hvalid⟩ := calls_of_lettered (forall_hopList h.repeaters)
  have hcount : hops.length = f.hops := by rw [← hhops.length_eq, length_hopList h.hops]
  refine ⟨⟨src, dest, hops, f.infoBytes, true⟩,
    ⟨hsrc, hdest, hhops, hcount, fun c hc => (hvalid c hc).2, rfl, rfl⟩, ?_⟩
  exact ⟨⟨hsrc.valid, hdest.valid, fun c hc => (hvalid c hc).1, hcount.le.trans h.hops⟩, h.ne, h.length, h.chars⟩

/-- The octets of the packet are decoded to a frame that carries `f`. -/
theorem decode_packet {p : Packet} (hp : PacketOf f p) (hvalid : p.Valid) (frame : Frame) (out : Mem) : ∃ f' next,
    decodeFrame frame .normal (out.store 0 p.octets) p.octets.length = some (f', next) ∧ Carries f f' := by
  have hwf : ∀ a ∈ p.hops.map Call.addr, a.WellFormed := by
    rw [List.forall_mem_map]
    exact hp.wellFormed
  have hfit : StationsFit p.dest.addr p.src.addr (p.hops.map Call.addr) :=
    ⟨hp.dest.wellFormed, hp.src.wellFormed, by rw [List.length_map]; exact hvalid.count, hwf⟩
  have hlen : p.octets.length < 2 ^ 64 := by
    have hlength : p.body.length ≤ 256 := hvalid.length
    have hhops : p.hops.length ≤ 8 := hvalid.count
    rw [Packet.octets, length_wireOctets, List.length_map, List.length_cons]
    show 7 * (2 + p.hops.length) + 1 + (p.body.length + 1) < 2 ^ 64
    omega
  have hoctets : p.octets = wireOctets p.dest.addr p.src.addr (p.hops.map Call.addr) .command .normal FrameType.ui.code
      (pidOctets FrameType.ui.code PATTY_AX25_PROTO_NONE ++ p.body) := rfl
  obtain ⟨f', next, hf', hfrom, hcontrol, hfinds⟩ := decode_wire frame out hfit .command .normal FrameType.ui.code
    PATTY_AX25_PROTO_NONE p.body hoctets hlen
  have hhops : f'.hops = f.hops := by rw [hfrom.count, List.length_map, hp.count]
  obtain ⟨-, hproto, hinfo⟩ := hfinds.ui (by decide)
  refine ⟨f', next, hf', ⟨hfrom.dest.trans hp.dest.same, hfrom.src.trans hp.src.same, hhops, ?_, ?_, hproto,
    hinfo.trans hp.body⟩⟩
  · have hsame := hfrom.hops
    rw [hhops, List.forall₂_map_right_iff] at hsame
    have hwrites : List.Forall₂ (fun c a => Addr.Writes a c) p.hops (hopList f.repeaters f.hops) := hp.hops.flip
    have hboth := forall₂_common hsame.flip hwrites fun _ _ _ ha hb => Addr.Same.trans ha hb.same
    exact hopList_same (hp.count ▸ hvalid.count) hboth
  · rw [hcontrol]
    decide

/-- The line of a packet, in whatever reads it comes. -/
theorem roundTrips_line {p : Packet} (hp : PacketOf f p) (hvalid : p.Valid) : RoundTrips f (Line.packet p).octets := by
  intro reads hne hline out
  obtain ⟨aprs, hfeed, hends⟩ := feed_packet hvalid
  cases hbyte : aprs.drainByte 0x0a with
  | packet aprs' =>
    rw [hbyte] at hends
    obtain ⟨hstate, bs, hencode, hbs⟩ := hends
    cases hbs
    obtain ⟨rx, i, hdrain⟩ := @drainReads_packet aprs aprs' _ _ out reads _ hne hline hfeed hbyte hencode
    refine ⟨_, _, hdrain, decide_eq_true hstate, fun frame => ?_⟩
    exact decode_packet hp hvalid frame out
  | more =>
    rw [hbyte] at hends
    exact hends.elim
  | done =>
    rw [hbyte] at hends
    cases hends.1
  | drop =>
    rw [hbyte] at hends
    cases hends

/-! ## What is written -/

/-- The buffer with the logins formatted in it. -/
def overwrite (txBuf : Mem) (logins : List Bytes) : Mem :=
  logins.foldl (fun txBuf login => printAt txBuf 0 PATTY_AX25_APRS_IS_PACKET_MAX (loginText login)) txBuf

theorem writeLoop_eq {attempt : Nat} :
    writeLoop o attempt txBuf writes =
      (loginsBefore attempt writes).map fun logins => (overwrite txBuf logins).read 0 o := by
  induction writes generalizing attempt txBuf with
  | nil => rfl
  | cons w writes ih =>
    cases w with
    | done => rfl
    | failed => rfl
    | lost login =>
      cases login with
      | none =>
        rw [writeLoop, loginsBefore]
        split
        · rfl
        · rw [ih, Option.map_map]
          rfl
      | some login =>
        rw [writeLoop, loginsBefore]
        split
        · rfl
        · rw [ih, Option.map_map]
          rfl

/-- The text of a login is not that of a line. -/
theorem login_ne {text rest : Bytes} (hspace : 0x20 ∉ text) :
    (text ++ 0x3e :: rest).take 5 ≠ [0x75, 0x73, 0x65, 0x72, 0x20] := by
  intro h
  rcases text with _ | ⟨a, _ | ⟨b, _ | ⟨c, _ | ⟨d, _ | ⟨e, text⟩⟩⟩⟩⟩
  all_goals simp at h
  exact hspace (by simp [h])

theorem overwrite_read {logins : List Bytes} (hne : logins ≠ []) (ho : 5 ≤ o) :
    ((overwrite txBuf logins).read 0 o).take 5 = [0x75, 0x73, 0x65, 0x72, 0x20] := by
  obtain ⟨init, login, rfl⟩ := List.eq_nil_or_concat logins |>.resolve_left hne
  obtain ⟨k, rfl⟩ := Nat.exists_eq_add_of_le ho
  rw [List.concat_eq_append, overwrite, List.foldl_append, List.foldl_cons, List.foldl_nil, Mem.read_append,
    List.take_left' Mem.length_read, printAt, if_neg (by decide)]
  rw [Mem.read_store_within le_rfl (by simp [loginText])]
  rfl

/-- What is sent of an UI frame whose stations can be printed. -/
theorem send_printed {frame₁ : Frame} {i o next len : Nat} {buf txBuf txBuf' : Mem}
    (haddr : decodeAddress frame buf len = some (frame₁, i))
    (hdecode : decodeControl frame₁ .normal buf i len = some (f, next)) (hui : controlUI f.control)
    (hprint : printStations f txBuf = .ok (some (txBuf', o))) (hroom : o + f.infolen + 3 ≤ PATTY_AX25_APRS_IS_FRAME_MAX)
    (writes : List Write) : send frame txBuf buf len writes = .ok
      (match writeLoop (o + (0x3a :: f.infoBytes ++ [0x0d, 0x0a]).length) 0
        (txBuf'.store o (0x3a :: f.infoBytes ++ [0x0d, 0x0a])) writes with
      | none => (-1, none)
      | some bs => (next, some bs)) := by
  rw [send, haddr]
  dsimp only
  rw [hdecode]
  dsimp only
  rw [if_neg (by simp [hui]), hprint, Except.ok_bind]
  dsimp only
  rw [if_neg (not_lt.mpr hroom)]
  cases writeLoop (o + (0x3a :: f.infoBytes ++ [0x0d, 0x0a]).length) 0
    (txBuf'.store o (0x3a :: f.infoBytes ++ [0x0d, 0x0a])) writes with
  | none => rfl
  | some bs => rfl

/-- The line is written and makes the decoder complete the frame again, unless a login was formatted; then it is
not the line that is written. -/
theorem send_iff (h : Sendable frame buf len f) (txBuf : Mem) (writes : List Write) : ∃ ret sent,
    send frame txBuf buf len writes = .ok (ret, sent) ∧ (sent.isSome ↔ (loginsBefore 0 writes).isSome) ∧
    (loginsBefore 0 writes = some [] → ∃ bs, sent = some bs ∧ RoundTrips f bs) ∧
    ∃ line, RoundTrips f line ∧ ∀ bs, sent = some bs → (bs = line ↔ loginsBefore 0 writes = some []) := by
  obtain ⟨p, hp, hvalid⟩ := h.packet
  obtain ⟨txBuf', hprint, hholds, hlen⟩ := printStations_holds hp.src hp.dest hp.hops hvalid.hops hvalid.count txBuf
  have hbody : f.infoBytes.length = f.infolen := by
    have hne := h.ne
    unfold Frame.infoBytes at hne ⊢
    split
    · rename_i hnone
      simp [hnone] at hne
    · exact Mem.length_read
  have hinfo : f.infoBytes.length ≤ 256 := h.length
  have hline : stationsText p.src p.dest p.hops ++ (0x3a :: f.infoBytes ++ [0x0d, 0x0a]) = (Line.packet p).octets := by
    rw [line_octets, ← hp.body, ← hp.cr]
  have htotal : (stationsText p.src p.dest p.hops).length + (0x3a :: f.infoBytes ++ [0x0d, 0x0a]).length =
      (Line.packet p).octets.length := by
    rw [← hline]
    exact List.length_append.symm
  have hstored := hholds.store (List.prefix_refl (0x3a :: f.infoBytes ++ [0x0d, 0x0a]))
  rw [hline] at hstored
  obtain ⟨next, hdecode⟩ := h.decodes
  have hsend : send frame txBuf buf len writes = .ok
      (match writeLoop (Line.packet p).octets.length 0
        (txBuf'.store (stationsText p.src p.dest p.hops).length (0x3a :: f.infoBytes ++ [0x0d, 0x0a])) writes with
      | none => (-1, none)
      | some bs => (next, some bs)) := by
    rw [decodeFrame] at hdecode
    split at hdecode
    · cases hdecode
    · rename_i frame₁ i haddr
      rw [send_printed haddr hdecode h.ui hprint (by show _ ≤ 512; omega), htotal]
  have hround := roundTrips_line hp hvalid
  rw [writeLoop_eq] at hsend
  cases hlogins : loginsBefore 0 writes with
  | none =>
    rw [hlogins] at hsend
    exact ⟨_, _, hsend, by simp, by simp, _, hround, by simp⟩
  | some logins =>
    rw [hlogins] at hsend
    refine ⟨_, _, hsend, by simp, ?_, _, hround, ?_⟩
    · rintro ⟨⟩
      refine ⟨(txBuf'.store _ _).read 0 _, rfl, ?_⟩
      rw [hstored]
      exact hround
    · rintro bs ⟨⟩
      rw [Option.some.injEq]
      constructor
      · intro hsame
        by_contra hne
        have hfive : 5 ≤ (Line.packet p).octets.length := by
          have hsrc : 0 < p.src.text.length := List.length_pos_iff.mpr (Call.text_ne hp.src.valid.ne)
          rw [← hline, stationsText]
          simp only [List.length_append, List.length_cons, List.length_nil]
          omega
        have htake := @overwrite_read _ (txBuf'.store (stationsText p.src p.dest p.hops).length
          (0x3a :: f.infoBytes ++ [0x0d, 0x0a])) logins hne hfive
        dsimp only at hsame
        rw [hsame, ← hline, stationsText, List.append_assoc, List.append_assoc, List.cons_append] at htake
        exact login_ne hp.src.space htake
      · rintro rfl
        exact hstored

/-- The octets of an UI frame from B to A. -/
def sampleUi : Bytes :=
  [0x82, 0x40, 0x40, 0x40, 0x40, 0x40, 0xe0, 0x84, 0x40, 0x40, 0x40, 0x40, 0x40, 0x61, 0x03, 0xf0, 0x68, 0x69]

/-- The frame that is decoded of them. -/
def sampleUiFrame : Frame :=
  ((decodeFrame .blank .normal (.ofBytes sampleUi fun _ => 0) 18).get (by decide)).1

theorem sampleUi_sendable : Sendable .blank (.ofBytes sampleUi fun _ => 0) 18 sampleUiFrame where
  decodes := ⟨18, rfl⟩
  ui := by decide
  proto := by decide
  dest := ⟨[0x41], by decide, by decide, by simp; decide, by unfold Addr.IsCalled; decide⟩
  src := ⟨[0x42], by decide, by decide, by simp; decide, by unfold Addr.IsCalled; decide⟩
  hops := by decide
  repeaters := fun i hi => absurd hi (by simp [show sampleUiFrame.hops = 0 by decide])
  ne := by decide
  length := by decide
  chars := by
    rw [show sampleUiFrame.infoBytes = [0x68, 0x69] from rfl]
    simp

/-- The line of a frame is written at the second try, without a login. -/
theorem send_sample : ∃ bs, send .blank (fun _ => 0) (.ofBytes sampleUi fun _ => 0) 18 [.lost none] =
    .ok (18, some bs) ∧ RoundTrips sampleUiFrame bs := by
  obtain ⟨ret, sent, hsend, -, hround, -⟩ := send_iff sampleUi_sendable (fun _ => 0) [.lost none]
  obtain ⟨bs, rfl, hline⟩ := hround rfl
  have hret : (send .blank (fun _ => 0) (.ofBytes sampleUi fun _ => 0) 18 [.lost none]).toOption.map (·.1) =
      some 18 := by
    decide
  rw [hsend] at hret
  cases hret
  exact ⟨bs, hsend, hline⟩

/-- Behind a login the text of the login is written. -/
theorem not_roundTrips_login : ¬∀ (frame f : Frame) (txBuf buf : Mem) (len : Nat) (writes : List Write),
    Sendable frame buf len f → ∃ ret sent, send frame txBuf buf len writes = .ok (ret, sent) ∧
      ∀ bs, sent = some bs → RoundTrips f bs := by
  intro h
  obtain ⟨ret, sent, hsend, hround⟩ := h _ _ (fun _ => 0) _ _ [.lost (some [0x4e, 0x30, 0x43, 0x41, 0x4c, 0x4c])]
    sampleUi_sendable
  have hsent : (send .blank (fun _ => 0) (.ofBytes sampleUi fun _ => 0) 18
      [.lost (some [0x4e, 0x30, 0x43, 0x41, 0x4c, 0x4c])]).toOption.bind (·.2) =
        some [0x75, 0x73, 0x65, 0x72, 0x20, 0x4e, 0x30, 0x43] := by decide
  rw [hsend] at hsent
  cases hsent
  obtain ⟨aprs, out, hdrain, hpending, -⟩ := hround _ rfl [[0x75, 0x73, 0x65, 0x72, 0x20, 0x4e, 0x30, 0x43]]
    (by simp) rfl fun _ => 0
  have hidle : ((drainReads PATTY_AX25_IF_DEFAULT_MRU [[0x75, 0x73, 0x65, 0x72, 0x20, 0x4e, 0x30, 0x43]] new
      fun _ => 0).toOption.bind id).map (·.1.pending) = some false := by decide
  rw [hdrain] at hidle
  rw [show aprs.pending = false from Option.some.inj hidle] at hpending
  cases hpending

end AprsIs

end Patty
