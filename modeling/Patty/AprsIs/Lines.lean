import Patty.AprsIs.Calls
import Patty.AprsIs.Reads
import Patty.Wire.Codec

/-! # APRS-IS lines

Lines as they are sent: comments, packets, and lines whose header is malformed. When each line comes in
reads of its own and a malformed header is refused in the last of them, `handle_iface` obtains the frames
of the packets, once each and in order (`obtains_lines`). -/

namespace Patty

/-! ## The lines -/

/-- A packet; `cr` is a carriage return before the line feed. -/
structure Packet where
  src : Call
  dest : Call
  hops : List Call
  body : Bytes
  cr : Bool

/-- The fields behind the source: each but the last ends with a comma, and the last with the colon. -/
def fieldsText : Call → List Call → Bytes
  | c, [] => c.text ++ [0x3a]
  | c, d :: ds => c.text ++ 0x2c :: fieldsText d ds

namespace Packet

def header (p : Packet) : Bytes := p.src.text ++ 0x3e :: fieldsText p.dest p.hops

/-- The header is well formed. -/
structure HeaderValid (p : Packet) : Prop where
  src : p.src.Valid
  dest : p.dest.Valid
  hops : ∀ c ∈ p.hops, c.Valid
  count : p.hops.length ≤ PATTY_AX25_MAX_HOPS

structure Valid (p : Packet) : Prop extends p.HeaderValid where
  ne : p.body ≠ []
  length : p.body.length ≤ PATTY_AX25_APRS_IS_PAYLOAD_MAX
  chars : ∀ b ∈ p.body, b ≠ 0x0d ∧ b ≠ 0x0a

/-- Its frame. -/
def octets (p : Packet) : Bytes :=
  wireOctets p.dest.addr p.src.addr (p.hops.map Call.addr) .command .normal FrameType.ui.code
    (PATTY_AX25_PROTO_NONE :: p.body)

end Packet

inductive Line
  | comment (text : Bytes)
  | malformed (text : Bytes)
  | packet (p : Packet)

namespace Line

def text : Line → Bytes
  | .comment text => 0x23 :: text
  | .malformed text => text
  | .packet p => p.header ++ p.body ++ if p.cr then [0x0d] else []

/-- The octets of a line, with the line feed. -/
def octets (l : Line) : Bytes := l.text ++ [0x0a]

def Valid : Line → Prop
  | .comment text => 0x0a ∉ text
  | .malformed text => 0x0a ∉ text ∧ text.head? ≠ some 0x23 ∧
      ∀ p : Packet, p.HeaderValid → ¬p.header <+: text
  | .packet p => p.Valid

def frame : Line → Option Bytes
  | .packet p => some p.octets
  | _ => none

end Line

/-- Where a header is refused: at a character that no address has, at one more than a field holds, at the
end of a field that `patty_ax25_pton` does not take, or at that of a ninth hop. A comment sign or a colon
ends the header before. `call` is the field so far, `dest` says whether the destination is there, and
`hops` is the number of hops. -/
def refusal (call : Bytes) (dest : Bool) (hops : Nat) : Bytes → Option Nat
  | [] => none
  | c :: text =>
    if c = 0x23 then none
    else if c = 0x3e then
      if (pton call .zero).isNone then some 0 else (refusal [] dest hops text).map (· + 1)
    else if c = 0x2c || c = 0x3a then
      if dest && hops = PATTY_AX25_MAX_HOPS then some 0
      else if (pton call .zero).isNone then some 0
      else if c = 0x3a then none
      else (refusal [] true (if dest then hops + 1 else hops) text).map (· + 1)
    else if addrCharValid c && call.length ≠ PATTY_AX25_ADDRSTRLEN then
      (refusal (call ++ [c]) dest hops text).map (· + 1)
    else some 0

/-! ## Headers -/

namespace AprsIs

variable {aprs aprs' : AprsIs} {len : Nat} {c : UInt8} {bs text : Bytes}

/-- The decoder at the end of a field. -/
theorem saveCall_valid {call : Call} {addr : Addr} {save : Addr → Frame} (h : call.Valid)
    (hcall : aprs.call = call.text) : aprs.saveCall addr save =
      .more { aprs with frame := save call.addr, call := [] } := by
  rw [saveCall, hcall, pton_text h]

/-- A character of a field. -/
theorem drainByte_char (hs : aprs.state = .header) (hvalid : addrCharValid c) (hsep : c ∉ separators)
    (hlen : aprs.call.length < PATTY_AX25_ADDRSTRLEN) :
    aprs.drainByte c = .more { aprs with call := aprs.call ++ [c] } := by
  simp only [separators, List.mem_cons, List.not_mem_nil, or_false, not_or] at hsep
  obtain ⟨h1, h2, h3, h4⟩ := hsep
  rw [drainByte, hs]
  dsimp only
  rw [if_neg h1, if_neg h4, if_neg (by simp [h2, h3]), if_pos hvalid, if_neg (by omega)]

theorem feed_chars (hs : aprs.state = .header) (hchars : ∀ b ∈ bs, addrCharValid b ∧ b ∉ separators)
    (hlen : aprs.call.length + bs.length ≤ PATTY_AX25_ADDRSTRLEN) :
    aprs.feed bs = some { aprs with call := aprs.call ++ bs } := by
  induction bs generalizing aprs with
  | nil => rw [List.append_nil]; rfl
  | cons b bs ih =>
    rw [List.forall_mem_cons] at hchars
    rw [List.length_cons] at hlen
    have hroom : (aprs.call ++ [b]).length + bs.length ≤ PATTY_AX25_ADDRSTRLEN := by
      rw [List.length_append, List.length_singleton]
      omega
    rw [feed_cons (drainByte_char hs hchars.1.1 hchars.1.2 (by omega)),
      @ih { aprs with call := aprs.call ++ [b] } hs hchars.2 hroom]
    simp

theorem chars_text {call : Call} (h : call.Valid) : ∀ b ∈ call.text, addrCharValid b ∧ b ∉ separators := by
  intro b hb
  rw [Call.text, List.mem_append] at hb
  rcases hb with hb | hb
  · exact ⟨(h.chars b hb).1, (h.chars b hb).2.1⟩
  · split at hb
    · cases hb
    · rcases List.mem_cons.mp hb with rfl | hb
      · decide
      · obtain ⟨hlo, hhi⟩ := h.digits b hb
        have hlo' : 0x30 ≤ b.toNat := UInt8.le_iff_toNat_le.mp hlo
        have hhi' : b.toNat ≤ 0x39 := UInt8.le_iff_toNat_le.mp hhi
        refine ⟨?_, fun hsep => ?_⟩
        · simp only [addrCharValid, Bool.and_eq_true, decide_eq_true_eq, UInt8.le_iff_toNat_le]
          exact ⟨Nat.le_trans (by decide) hlo', Nat.le_trans hhi' (by decide)⟩
        · simp only [separators, List.mem_cons, List.not_mem_nil, or_false] at hsep
          rcases hsep with rfl | rfl | rfl | rfl
          · exact absurd hlo' (by decide)
          · exact absurd hlo' (by decide)
          · exact absurd hhi' (by decide)
          · exact absurd hhi' (by decide)

/-- A field, up to the character that ends it. -/
theorem feed_field {call : Call} (h : call.Valid) (hs : aprs.state = .header) (hcall : aprs.call = [])
    (rest : Bytes) : aprs.feed (call.text ++ rest) = { aprs with call := call.text }.feed rest := by
  rw [feed_append, feed_chars hs (chars_text h) (by rw [hcall]; simpa using h.scans.length_text), hcall]
  rfl

/-- The source. -/
theorem feed_src {call : Call} (h : call.Valid) (hs : aprs.state = .header) (hcall : aprs.call = [])
    (rest : Bytes) : aprs.feed (call.text ++ 0x3e :: rest) =
      { aprs with frame := { aprs.frame with src := call.addr } }.feed rest := by
  rw [feed_field h hs hcall]
  have hbyte : { aprs with call := call.text }.drainByte 0x3e =
      .more { aprs with frame := { aprs.frame with src := call.addr }, call := [] } := by
    rw [drainByte]
    dsimp only
    rw [hs]
    dsimp only
    rw [if_neg (by decide), if_pos rfl]
    exact saveCall_valid h rfl
  rw [feed_cons hbyte, ← hcall]

/-- The state behind a comma or a colon. -/
def afterField (c : UInt8) : AprsIsState := if c = 0x3a then .body else .header

theorem drainByte_end (hs : aprs.state = .header) (hc : c = 0x2c ∨ c = 0x3a) :
    aprs.drainByte c = aprs.endField (afterField c) := by
  rw [drainByte, hs]
  dsimp only
  rcases hc with rfl | rfl <;> rfl

/-- The destination. -/
theorem feed_dest {call : Call} (h : call.Valid) (hs : aprs.state = .header) (hcall : aprs.call = [])
    (hdest : aprs.frame.dest.isSet = false) (hc : c = 0x2c ∨ c = 0x3a) (rest : Bytes) :
    aprs.feed (call.text ++ c :: rest) = { aprs with
      state := afterField c
      frame := { aprs.frame with dest := call.addr } }.feed rest := by
  have hbyte : { aprs with call := call.text }.drainByte c = .more { aprs with
      state := afterField c, frame := { aprs.frame with dest := call.addr }, call := [] } := by
    rw [@drainByte_end { aprs with call := call.text } c hs hc, endField, if_neg (by simp [hdest])]
    exact saveCall_valid h rfl
  rw [feed_field h hs hcall, feed_cons hbyte, ← hcall]

/-- A hop. -/
theorem feed_hop {call : Call} (h : call.Valid) (hs : aprs.state = .header) (hcall : aprs.call = [])
    (hdest : aprs.frame.dest.isSet = true) (hhops : aprs.frame.hops < PATTY_AX25_MAX_HOPS)
    (hc : c = 0x2c ∨ c = 0x3a) (rest : Bytes) :
    aprs.feed (call.text ++ c :: rest) = { aprs with
      state := afterField c
      frame := { aprs.frame with
        repeaters := fun i => if i.val = aprs.frame.hops then call.addr else aprs.frame.repeaters i
        hops := aprs.frame.hops + 1 } }.feed rest := by
  have hbyte : { aprs with call := call.text }.drainByte c = .more { aprs with
      state := afterField c
      frame := { aprs.frame with
        repeaters := fun i => if i.val = aprs.frame.hops then call.addr else aprs.frame.repeaters i
        hops := aprs.frame.hops + 1 }
      call := [] } := by
    rw [@drainByte_end { aprs with call := call.text } c hs hc, endField, if_pos hdest, if_neg (by dsimp only; omega)]
    exact saveCall_valid h rfl
  rw [feed_field h hs hcall, feed_cons hbyte, ← hcall]

/-- The hops, up to the colon. -/
theorem feed_hops {d : Call} {ds : List Call} (hvalid : ∀ d' ∈ d :: ds, d'.Valid) (hs : aprs.state = .header)
    (hcall : aprs.call = []) (hdest : aprs.frame.dest.isSet = true)
    (hcount : aprs.frame.hops + (d :: ds).length ≤ PATTY_AX25_MAX_HOPS) (rest : Bytes) : ∃ repeaters,
      aprs.feed (fieldsText d ds ++ rest) = { aprs with
        state := .body
        frame := { aprs.frame with hops := aprs.frame.hops + (d :: ds).length, repeaters } }.feed rest ∧
      hopList repeaters (aprs.frame.hops + (d :: ds).length) =
        hopList aprs.frame.repeaters aprs.frame.hops ++ (d :: ds).map Call.addr := by
  induction ds generalizing d aprs with
  | nil =>
    have hroom : aprs.frame.hops < PATTY_AX25_MAX_HOPS := hcount
    refine ⟨_, ?_, hopList_push d.addr hroom⟩
    rw [fieldsText, List.append_assoc, List.singleton_append,
      feed_hop (hvalid d (by simp)) hs hcall hdest hroom (.inr rfl)]
    rfl
  | cons d' ds ih =>
    rw [List.length_cons] at hcount
    have hroom : aprs.frame.hops < PATTY_AX25_MAX_HOPS := by omega
    obtain ⟨repeaters, hfeed, hhops⟩ := @ih { aprs with
        state := afterField 0x2c
        frame := { aprs.frame with
          repeaters := fun i => if i.val = aprs.frame.hops then d.addr else aprs.frame.repeaters i
          hops := aprs.frame.hops + 1 } } d' (fun x hx => hvalid x (List.mem_cons_of_mem _ hx)) rfl hcall
      hdest (by dsimp only; omega)
    have hlen : aprs.frame.hops + 1 + (d' :: ds).length = aprs.frame.hops + (d :: d' :: ds).length := by
      simp only [List.length_cons]
      omega
    dsimp only at hfeed hhops
    rw [hlen] at hfeed hhops
    refine ⟨repeaters, ?_, ?_⟩
    · rw [fieldsText, List.append_assoc, List.cons_append,
        feed_hop (hvalid d (by simp)) hs hcall hdest hroom (.inl rfl), hfeed]
    · rw [hhops, hopList_push _ hroom, List.append_assoc]
      rfl

/-- A well-formed header. -/
theorem feed_header {p : Packet} (h : p.HeaderValid) (rest : Bytes) : ∃ repeaters,
    new.feed (p.header ++ rest) = { new with
      state := .body
      frame := { Frame.zero with
        src := p.src.addr, dest := p.dest.addr, hops := p.hops.length, repeaters } }.feed rest ∧
    hopList repeaters p.hops.length = p.hops.map Call.addr := by
  obtain ⟨src, dest, hops, body, cr⟩ := p
  have hset : dest.addr.isSet := pton_isSet (pton_text h.dest .zero)
  rw [Packet.header, List.append_assoc, List.cons_append, feed_src h.src rfl rfl]
  dsimp only
  cases hops with
  | nil =>
    refine ⟨Frame.zero.repeaters, ?_, rfl⟩
    rw [fieldsText, List.append_assoc, List.singleton_append]
    exact feed_dest h.dest rfl rfl rfl (.inr rfl) rest
  | cons d ds =>
    have hcount : 0 + (d :: ds).length ≤ PATTY_AX25_MAX_HOPS := (Nat.zero_add _).le.trans h.count
    obtain ⟨repeaters, hfeed, hhops⟩ := @feed_hops { new with
        state := afterField 0x2c
        frame := { Frame.zero with src := src.addr, dest := dest.addr } } d ds h.hops rfl rfl hset hcount rest
    dsimp only at hfeed hhops
    have hzero : Frame.zero.hops + (d :: ds).length = (d :: ds).length := Nat.zero_add _
    rw [hzero] at hfeed hhops
    refine ⟨repeaters, ?_, hhops⟩
    rw [fieldsText, List.append_assoc, List.cons_append]
    exact (feed_dest h.dest rfl rfl rfl (.inl rfl) _).trans hfeed

/-! ## What ends a line -/

theorem feed_body (hs : aprs.state = .body) (hchars : ∀ b ∈ bs, b ≠ 0x0d ∧ b ≠ 0x0a)
    (hlen : aprs.body.length + bs.length ≤ PATTY_AX25_APRS_IS_PAYLOAD_MAX) :
    aprs.feed bs = some { aprs with body := aprs.body ++ bs } := by
  induction bs generalizing aprs with
  | nil => rw [List.append_nil]; rfl
  | cons b bs ih =>
    rw [List.forall_mem_cons] at hchars
    rw [List.length_cons] at hlen
    have hbyte : aprs.drainByte b = .more { aprs with body := aprs.body ++ [b] } := by
      rw [drainByte, hs]
      dsimp only
      rw [if_neg hchars.1.1, if_neg hchars.1.2, if_neg (by omega)]
    have hroom : (aprs.body ++ [b]).length + bs.length ≤ PATTY_AX25_APRS_IS_PAYLOAD_MAX := by
      rw [List.length_append, List.length_singleton]
      omega
    rw [feed_cons hbyte, @ih { aprs with body := aprs.body ++ [b] } hs hchars.2 hroom]
    simp

/-- The frame of a packet. -/
def packetFrame (p : Packet) (repeaters : Fin PATTY_AX25_MAX_HOPS → Addr) : Frame :=
  { Frame.zero with
    src := p.src.addr
    dest := p.dest.addr
    hops := p.hops.length
    repeaters
    control := FrameType.ui.code
    cr := .command
    proto := PATTY_AX25_PROTO_NONE
    info := some (.ofBytes p.body fun _ => 0)
    infolen := p.body.length }

theorem encode_packet {p : Packet} (h : p.Valid) {repeaters : Fin PATTY_AX25_MAX_HOPS → Addr}
    (hhops : hopList repeaters p.hops.length = p.hops.map Call.addr) :
    (packetFrame p repeaters).encode PATTY_AX25_IF_DEFAULT_MRU = .ok (some p.octets) := by
  have hcount : p.hops.length ≤ 8 := h.count
  have hlength : p.body.length ≤ 256 := h.length
  have hroom : (packetFrame p repeaters).room ≤ PATTY_AX25_IF_DEFAULT_MRU := by
    show 7 * (2 + p.hops.length) + 1 + 1 + p.body.length ≤ 4096
    omega
  have hinfo : (packetFrame p repeaters).infoBytes = p.body := Mem.read_ofBytes _
  have hpayload : (packetFrame p repeaters).payload = PATTY_AX25_PROTO_NONE :: p.body := by
    have hpid : pidOctets FrameType.ui.code PATTY_AX25_PROTO_NONE = [PATTY_AX25_PROTO_NONE] := by decide
    rw [payload_eq (by rw [hinfo]; exact fun _ => h.ne), hinfo]
    exact congrArg (· ++ p.body) hpid
  rw [encode_wire _ h.count hroom (by decide), hpayload]
  show Except.ok (some (wireOctets p.dest.addr p.src.addr (hopList repeaters p.hops.length) .command .normal
    FrameType.ui.code (PATTY_AX25_PROTO_NONE :: p.body))) = _
  rw [hhops]
  rfl

/-- A packet is complete at its line feed. -/
theorem feed_packet {p : Packet} (h : p.Valid) : ∃ aprs, new.feed (Line.packet p).text = some aprs ∧
    (aprs.drainByte 0x0a).Ends PATTY_AX25_IF_DEFAULT_MRU [p.octets] := by
  obtain ⟨repeaters, hheader, hhops⟩ := feed_header h.toHeaderValid (p.body ++ if p.cr then [0x0d] else [])
  have hbody := @feed_body { new with
      state := .body
      frame := { Frame.zero with
        src := p.src.addr, dest := p.dest.addr, hops := p.hops.length, repeaters } } p.body rfl h.chars
    (by simpa [new] using h.length)
  refine ⟨{ new with
      state := .body
      body := p.body
      frame := { Frame.zero with
        src := p.src.addr, dest := p.dest.addr, hops := p.hops.length, repeaters } }, ?_, ?_⟩
  · rw [Line.text, List.append_assoc, hheader, feed_append, hbody, Option.bind_some]
    cases p.cr <;> rfl
  · exact ⟨rfl, p.octets, encode_packet h hhops, rfl⟩

/-- A comment ends at its line feed. -/
theorem feed_comment {text : Bytes} (h : 0x0a ∉ text) : ∃ aprs,
    new.feed (Line.comment text).text = some aprs ∧ (aprs.drainByte 0x0a).Ends len [] := by
  have hrest : { new with state := .comment }.feed text = some { new with state := .comment } := by
    induction text with
    | nil => rfl
    | cons b text ih =>
      rw [List.mem_cons, not_or] at h
      have hbyte : { new with state := .comment }.drainByte b = .more { new with state := .comment } := by
        rw [drainByte]
        dsimp only
        rw [if_neg (Ne.symm h.1)]
      rw [feed_cons hbyte, ih h.2]
  refine ⟨{ new with state := .comment }, ?_, rfl, [], 0, rfl⟩
  have hbyte : new.drainByte 0x23 = .more { new with state := .comment } := rfl
  rw [Line.text, feed_cons hbyte, hrest]

/-- Where the decoder is in a header. -/
structure InHeader (aprs : AprsIs) (call : Bytes) (dest : Bool) (hops : Nat) : Prop where
  state : aprs.state = .header
  call : aprs.call = call
  dest : aprs.frame.dest.isSet = dest
  hops : aprs.frame.hops = hops

theorem InHeader.next {aprs' : AprsIs} {call : Bytes} {dest : Bool} {hops j : Nat}
    (hbyte : aprs.drainByte c = .more aprs') (h : aprs'.InHeader call dest hops)
    (ih : ∀ {aprs : AprsIs} {call : Bytes} {dest : Bool} {hops j : Nat}, aprs.InHeader call dest hops →
      refusal call dest hops text = some j → ∃ pre c post aprs', text = pre ++ c :: post ∧
        pre.length = j ∧ aprs.feed pre = some aprs' ∧ (aprs'.drainByte c).Ends len [])
    (hj : (refusal call dest hops text).map (· + 1) = some j) : ∃ pre c' post a, c :: text = pre ++ c' :: post ∧
      pre.length = j ∧ aprs.feed pre = some a ∧ (a.drainByte c').Ends len [] := by
  obtain ⟨j', hj', rfl⟩ := Option.map_eq_some_iff.mp hj
  obtain ⟨pre, c', post, a, rfl, rfl, hfeed, hends⟩ := ih h hj'
  exact ⟨c :: pre, c', post, a, rfl, rfl, (feed_cons hbyte).trans hfeed, hends⟩

theorem saveCall_isNone {addr : Addr} {save : Addr → Frame} (h : (pton aprs.call .zero).isNone) :
    aprs.saveCall addr save = .drop aprs := by
  have hnone : pton aprs.call addr = none := by
    rw [← Option.isNone_iff_eq_none, pton_isNone _ addr .zero]
    exact h
  rw [saveCall, hnone]

theorem saveCall_isSome {addr : Addr} {save : Addr → Frame} (h : ¬(pton aprs.call .zero).isNone) :
    ∃ a, a.isSet ∧ aprs.saveCall addr save = .more { aprs with frame := save a, call := [] } := by
  rw [pton_isNone _ .zero addr, Option.isNone_iff_eq_none] at h
  obtain ⟨a, ha⟩ := Option.ne_none_iff_exists'.mp h
  exact ⟨a, pton_isSet ha, by rw [saveCall, ha]⟩

/-- The decoder refuses a header where `refusal` says. -/
theorem feed_refusal {call : Bytes} {dest : Bool} {hops j : Nat} (h : aprs.InHeader call dest hops)
    (hj : refusal call dest hops text = some j) : ∃ pre c post aprs', text = pre ++ c :: post ∧
      pre.length = j ∧ aprs.feed pre = some aprs' ∧ (aprs'.drainByte c).Ends len [] := by
  induction text generalizing aprs call dest hops j with
  | nil => cases hj
  | cons c text ih =>
    obtain ⟨hstate, rfl, rfl, rfl⟩ := h
    have hhere {a : AprsIs} (hdrop : aprs.drainByte c = .drop a) (hzero : some 0 = some j) :
        ∃ pre c' post a, c :: text = pre ++ c' :: post ∧ pre.length = j ∧ aprs.feed pre = some a ∧
          (a.drainByte c').Ends len [] :=
      ⟨[], c, text, aprs, rfl, Option.some.inj hzero, rfl, by rw [hdrop]; rfl⟩
    rw [refusal] at hj
    by_cases hcomment : c = 0x23
    · rw [if_pos hcomment] at hj
      cases hj
    rw [if_neg hcomment] at hj
    by_cases hsrc : c = 0x3e
    · have hbyte : aprs.drainByte c = aprs.saveCall aprs.frame.src fun addr => { aprs.frame with src := addr } := by
        rw [drainByte, hstate]
        dsimp only
        rw [if_neg hcomment, if_pos hsrc]
      rw [if_pos hsrc] at hj
      split at hj
      · exact hhere (hbyte.trans (saveCall_isNone ‹_›)) hj
      · obtain ⟨a, -, ha⟩ := @saveCall_isSome aprs aprs.frame.src (fun addr => { aprs.frame with src := addr }) ‹_›
        exact InHeader.next (hbyte.trans ha) ⟨hstate, rfl, rfl, rfl⟩ ih hj
    rw [if_neg hsrc] at hj
    by_cases hfield : c = 0x2c ∨ c = 0x3a
    · have hfield' : (c = 0x2c || c = 0x3a) = true := by simpa using hfield
      have hbyte := drainByte_end hstate hfield
      rw [if_pos hfield'] at hj
      split at hj
      · rename_i hfull
        rw [Bool.and_eq_true, decide_eq_true_eq] at hfull
        rw [endField, if_pos hfull.1, if_pos hfull.2] at hbyte
        exact hhere hbyte hj
      rename_i hroom
      split at hj
      · rename_i hnone
        have hdrop : ∃ a, aprs.drainByte c = .drop a := by
          rw [hbyte, endField]
          split_ifs
          · exact ⟨_, rfl⟩
          · exact ⟨_, saveCall_isNone hnone⟩
          · exact ⟨_, saveCall_isNone hnone⟩
        exact hhere hdrop.choose_spec hj
      rename_i hsome
      split at hj
      · cases hj
      rename_i hcolon
      rw [afterField, if_neg hcolon, endField] at hbyte
      cases hdest : aprs.frame.dest.isSet with
      | true =>
        rw [hdest] at hj hroom
        rw [Bool.true_and, decide_eq_true_eq] at hroom
        rw [if_pos hdest, if_neg hroom] at hbyte
        obtain ⟨a, -, ha⟩ := @saveCall_isSome { aprs with state := .header }
          (aprs.frame.repeaters (Fin.ofNat _ aprs.frame.hops)) (fun addr => { aprs.frame with
            repeaters := fun i => if i.val = aprs.frame.hops then addr else aprs.frame.repeaters i
            hops := aprs.frame.hops + 1 }) hsome
        exact InHeader.next (hbyte.trans ha) ⟨rfl, rfl, hdest, rfl⟩ ih hj
      | false =>
        rw [hdest] at hj
        rw [if_neg (by simp [hdest])] at hbyte
        obtain ⟨a, hset, ha⟩ := @saveCall_isSome { aprs with state := .header } aprs.frame.dest
          (fun addr => { aprs.frame with dest := addr }) hsome
        exact InHeader.next (hbyte.trans ha) ⟨rfl, rfl, hset, rfl⟩ ih hj
    rw [if_neg (by simpa using hfield)] at hj
    split at hj
    · rename_i hchar
      rw [Bool.and_eq_true, decide_eq_true_eq] at hchar
      have hbyte : aprs.drainByte c = .more { aprs with call := aprs.call ++ [c] } := by
        rw [drainByte, hstate]
        dsimp only
        rw [if_neg hcomment, if_neg hsrc, if_neg (by simpa using hfield), if_pos hchar.1, if_neg hchar.2]
      exact InHeader.next hbyte ⟨hstate, rfl, rfl, rfl⟩ ih hj
    · rename_i hchar
      have hdrop : aprs.drainByte c = .drop aprs := by
        rw [drainByte, hstate]
        dsimp only
        rw [if_neg hcomment, if_neg hsrc, if_neg (by simpa using hfield)]
        rw [Bool.and_eq_true, decide_eq_true_eq, not_and_or, not_not] at hchar
        split_ifs <;> first | rfl | simp_all
      exact hhere hdrop hj

/-! ## Lines in reads of their own -/

/-- The reads bring these lines; none is longer than the receive buffer. -/
structure LineReads (lines : List Line) (reads : List Bytes) : Prop where
  valid : ∀ l ∈ lines, l.Valid
  octets : reads.flatten = lines.flatMap Line.octets
  readable : ∀ r ∈ reads, r ≠ [] ∧ r.length ≤ PATTY_AX25_APRS_IS_PACKET_MAX

/-- The reads bring this line, and a malformed header is refused in the last of them. -/
structure OwnReads (l : Line) (reads : List Bytes) : Prop where
  octets : reads.flatten = l.octets
  refused : ∀ text, l = .malformed text →
    ∃ j, refusal [] false 0 l.octets = some j ∧ reads.dropLast.flatten.length ≤ j

/-- Each line comes in reads of its own. -/
def Separate (lines : List Line) (reads : List Bytes) : Prop :=
  ∃ groups : List (List Bytes), groups.flatten = reads ∧ List.Forall₂ OwnReads lines groups

/-- `handle_iface` obtains these frames from a new decoder. -/
def Obtains (reads frames : List Bytes) : Prop :=
  ∀ out, ∃ aprs out', handleReads PATTY_AX25_IF_DEFAULT_MRU reads .new out = .ok (true, frames, aprs, out')

/-- The octet that ends a line, or at which it is refused. -/
theorem line_ends {l : Line} (hvalid : l.Valid) {reads : List Bytes} (hne : ∀ r ∈ reads, r ≠ [])
    (h : OwnReads l reads) : ∃ pre c post aprs, l.octets = pre ++ c :: post ∧
      reads.dropLast.flatten.length ≤ pre.length ∧ new.feed pre = some aprs ∧
      (aprs.drainByte c).Ends PATTY_AX25_IF_DEFAULT_MRU l.frame.toList := by
  have hlast : reads.dropLast.flatten.length ≤ l.text.length := by
    have hreads : reads ≠ [] := by
      rintro rfl
      have hnil := h.octets
      simp [Line.octets] at hnil
    have hpos : 0 < (reads.getLast hreads).length := List.length_pos_iff.mpr (hne _ (List.getLast_mem hreads))
    have hsplit := congrArg List.length h.octets
    rw [← List.dropLast_append_getLast hreads, Line.octets] at hsplit
    simp only [List.flatten_append, List.length_append, List.flatten_singleton, List.length_singleton] at hsplit
    omega
  cases l with
  | comment text =>
    obtain ⟨aprs, hfeed, hends⟩ := feed_comment hvalid
    exact ⟨_, _, [], aprs, rfl, hlast, hfeed, hends⟩
  | packet p =>
    obtain ⟨aprs, hfeed, hends⟩ := feed_packet hvalid
    exact ⟨_, _, [], aprs, rfl, hlast, hfeed, hends⟩
  | malformed text =>
    obtain ⟨j, hj, hle⟩ := h.refused text rfl
    obtain ⟨pre, c, post, aprs, hsplit, rfl, hfeed, hends⟩ := @feed_refusal new _ _ _ _ _ _
      ⟨rfl, rfl, rfl, rfl⟩ hj
    exact ⟨pre, c, post, aprs, hsplit, hle, hfeed, hends⟩

/-- A line in reads of its own leaves a decoder as new. -/
theorem handleReads_own {l : Line} (hvalid : l.Valid) {reads : List Bytes} (hne : ∀ r ∈ reads, r ≠ [])
    (h : OwnReads l reads) (rx : Bytes) (i : Nat) (out : Mem) : ∃ rx' i' out',
      handleReads PATTY_AX25_IF_DEFAULT_MRU reads (new.inRead rx i) out =
        .ok (true, l.frame.toList, new.inRead rx' i', out') := by
  obtain ⟨pre, c, post, aprs, hsplit, hle, hfeed, hends⟩ := line_ends hvalid hne h
  have hreads : reads ≠ [] := by
    rintro rfl
    have hnil := h.octets
    simp [Line.octets] at hnil
  have hline : reads.dropLast.flatten ++ reads.getLast hreads = pre ++ c :: post := by
    rw [← hsplit, ← h.octets]
    conv_rhs => rw [← List.dropLast_append_getLast hreads]
    simp
  have hrun := handleReads_line (by simp [new]) (fun r hr => hne r (List.mem_of_mem_dropLast hr)) hline hle
    hfeed hends rx i out
  rwa [List.dropLast_append_getLast hreads] at hrun

/-- When each line comes in reads of its own, and each malformed header is refused in the last read of its
line, `handle_iface` obtains the frames of the packets. -/
theorem obtains_lines (lines : List Line) (reads : List Bytes) (h : LineReads lines reads)
    (hsep : Separate lines reads) : Obtains reads (lines.filterMap Line.frame) := by
  obtain ⟨groups, rfl, hgroups⟩ := hsep
  have hvalid := h.valid
  have hne : ∀ r ∈ groups.flatten, r ≠ [] := fun r hr => (h.readable r hr).1
  clear h
  intro out
  suffices hrun : ∀ rx i out, ∃ rx' i' out', handleReads PATTY_AX25_IF_DEFAULT_MRU groups.flatten
      (new.inRead rx i) out = .ok (true, lines.filterMap Line.frame, new.inRead rx' i', out') by
    obtain ⟨rx, i, out', hout⟩ := hrun [] 0 out
    exact ⟨_, _, hout⟩
  induction hgroups with
  | nil => exact fun rx i out => ⟨rx, i, out, rfl⟩
  | @cons l reads lines groups hl _ ih =>
    rw [List.forall_mem_cons] at hvalid
    rw [List.flatten_cons] at hne
    intro rx i out
    obtain ⟨rx₁, i₁, out₁, hfirst⟩ := handleReads_own hvalid.1
      (fun r hr => hne r (List.mem_append_left _ hr)) hl rx i out
    obtain ⟨rx', i', out', hrest⟩ := ih hvalid.2 (fun r hr => hne r (List.mem_append_right _ hr)) rx₁ i₁ out₁
    refine ⟨rx', i', out', ?_⟩
    rw [List.flatten_cons, handleReads_append hfirst, hrest]
    cases hframe : l.frame with
    | none => rw [List.filterMap_cons_none hframe]; rfl
    | some bs => rw [List.filterMap_cons_some hframe]; rfl

/-- `A>B,C:hi`, with a carriage return. -/
def samplePacket : Packet := ⟨⟨[0x41], []⟩, ⟨[0x42], []⟩, [⟨[0x43], []⟩], [0x68, 0x69], true⟩

/-- A callsign of one letter. -/
theorem valid_letter {b : UInt8} (h : addrCharValid b ∧ b ∉ separators ∧ b ≠ 0x2d) : Call.Valid ⟨[b], []⟩ :=
  ⟨by simp, Nat.succ_le_succ (Nat.zero_le 5), List.forall_mem_singleton.mpr h, by simp, by simp,
    Nat.zero_le _⟩

theorem samplePacket_valid : samplePacket.Valid :=
  ⟨⟨valid_letter (by decide), valid_letter (by decide), List.forall_mem_singleton.mpr (valid_letter (by decide)),
    by decide⟩, by decide, by decide,
    List.forall_mem_cons.mpr ⟨by decide, List.forall_mem_singleton.mpr (by decide)⟩⟩

/-- A comment, a line without a header, and a packet in two reads. -/
def sampleReads : List Bytes :=
  [[0x23, 0x61, 0x0a], [0x78, 0x0a], [0x41, 0x3e, 0x42], [0x2c, 0x43, 0x3a, 0x68, 0x69, 0x0d, 0x0a]]

theorem obtains_sample : Obtains sampleReads [samplePacket.octets] := by
  refine obtains_lines [.comment [0x61], .malformed [0x78], .packet samplePacket] sampleReads
    ⟨?_, by decide, by decide⟩ ⟨[[[0x23, 0x61, 0x0a]], [[0x78, 0x0a]],
      [[0x41, 0x3e, 0x42], [0x2c, 0x43, 0x3a, 0x68, 0x69, 0x0d, 0x0a]]], rfl, ?_⟩
  · simp only [List.forall_mem_cons, Line.Valid]
    refine ⟨by decide, ⟨by decide, by decide, fun p _ hp => ?_⟩, samplePacket_valid, by simp⟩
    have hmem : (0x3e : UInt8) ∈ [(0x78 : UInt8)] := hp.subset (by simp [Packet.header])
    exact absurd hmem (by decide)
  · refine .cons ⟨rfl, by simp⟩ (.cons ⟨rfl, ?_⟩ (.cons ⟨rfl, by simp⟩ .nil))
    exact fun _ _ => ⟨1, by decide, by decide⟩

/-- Two packets in one read: the second is lost. -/
theorem not_obtains_two : ¬∀ (lines : List Line) (reads : List Bytes), LineReads lines reads →
    Obtains reads (lines.filterMap Line.frame) := by
  intro h
  obtain ⟨aprs, out, hrun⟩ := h [.packet samplePacket, .packet samplePacket]
    [(Line.packet samplePacket).octets ++ (Line.packet samplePacket).octets]
    ⟨by simpa [Line.Valid] using samplePacket_valid, by decide, by decide⟩ fun _ => 0
  have htwo : (handleReads PATTY_AX25_IF_DEFAULT_MRU
      [(Line.packet samplePacket).octets ++ (Line.packet samplePacket).octets] .new fun _ => 0).toOption.map
        (fun r => r.2.1.length) = some 2 := by
    rw [hrun]
    rfl
  exact absurd htwo (by decide)

end AprsIs

end Patty
