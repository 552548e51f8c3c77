import Patty.Kiss.Send
import Patty.Kiss.Stream

/-! # What is sent over KISS is received

The frames that `patty_kiss_frame_send` writes for port 0, cut into reads in any way, give back their
payloads, in the loop of `handle_iface` and in that of `patty_kiss_tnc_recv`. -/

namespace Patty

namespace Dec

variable {len : Nat} {keep : Bool} {d : Dec} {ms : List (UInt8 × Bool)}

/-- The run over a frame as it is sent, which fits. -/
theorem run_sent_cons (keep : Bool) {p rest : Bytes} (hstate : d.state = .none) (hgot : d.got = [])
    (hms : ms.map (·.1) = kissFrame p ++ rest) (hne : p ≠ []) (hlen : p.length < len) : ∃ (d' : Dec) (ms' : _),
      d'.state = .none ∧ d'.got = [] ∧ ms'.map (·.1) = rest ∧
      run len keep false d ms = (run len keep false d' ms').map fun r => (p :: r.1, r.2) := by
  rw [kissFrame, List.cons_append, List.cons_append, List.append_assoc] at hms
  obtain ⟨l, ms, rfl, hms₁⟩ := head_of_map hms
  obtain ⟨m, ms, rfl, hm, hms₂⟩ := List.map_eq_append_iff.mp hms₁
  obtain ⟨l', ms, rfl, hms₃⟩ := head_of_map hms₂
  have hroom : d.got.length < len := by
    rw [hgot, List.length_nil]
    omega
  have hb : d.byte PATTY_KISS_FEND = .more { d with state := .frameCommand } := by
    rw [byte, hstate]
    rfl
  have hidle : { d with state := .frameCommand }.pending = false := by simp [pending, hgot]
  obtain ⟨d', hrun⟩ := @run_payload len keep { d with state := .frameCommand } ms ⟨0x00, p, 1⟩ m l' rfl
    hgot rfl hne hlen hm
  exact ⟨d'.flush, ms, rfl, rfl, hms₃, by rw [run_more hroom hb hidle, hrun]⟩

/-- The run over frames as they are sent. -/
theorem run_sent {payloads : List Bytes} (hstate : d.state = .none) (hgot : d.got = [])
    (hms : ms.map (·.1) = payloads.flatMap kissFrame) (hpay : ∀ p ∈ payloads, p ≠ [] ∧ p.length < len) :
    ∃ d', run len keep false d ms = some (payloads, d') := by
  induction payloads generalizing d ms with
  | nil =>
    rw [List.flatMap_nil, List.map_eq_nil_iff] at hms
    subst hms
    exact ⟨d, by rw [run]⟩
  | cons p payloads ih =>
    rw [List.forall_mem_cons] at hpay
    obtain ⟨⟨hne, hlen⟩, hpay⟩ := hpay
    rw [List.flatMap_cons] at hms
    obtain ⟨d', ms', hstate', hgot', hms', hrun⟩ := run_sent_cons keep hstate hgot hms hne hlen
    obtain ⟨d₂, hrest⟩ := ih hstate' hgot' hms' hpay
    exact ⟨d₂, by rw [hrun, hrest]; rfl⟩

end Dec

/-- However the frames that were sent are cut into reads, their payloads are received, once each and in
order, by `handle_iface` and by calls of `patty_kiss_tnc_recv`, which then returns 0. -/
theorem roundTrip_run (len : Nat) (junk out : Mem) (payloads reads : List Bytes)
    (hpay : ∀ p ∈ payloads, p ≠ [] ∧ p.length < len) (hreads : Tnc.Readable reads)
    (hstream : reads.flatten = payloads.flatMap fun p =>
      (kissFrameSend (.ofBytes p fun _ => 0) p.length 0).flatten) :
    Takes len junk out reads payloads ∧
      Tnc.recvAll len (payloads.length + 1) reads (.new junk) out = .ok (payloads, true) := by
  have hsent : (reads.flatMap Chunks.marks).map (·.1) = payloads.flatMap kissFrame := by
    rw [Chunks.flatMap_marks, hstream]
    congr 1
    funext p
    rw [kissFrameSend_flatten, Mem.read_ofBytes]
  have hrun (keep : Bool) : ∃ d, Dec.run len keep false .fresh (reads.flatMap Chunks.marks) =
      some (payloads, d) := Dec.run_sent rfl rfl hsent hpay
  constructor
  · obtain ⟨d, h⟩ := hrun false
    exact Tnc.handleReads_run (new_fits junk len) hreads h
  · obtain ⟨d, h⟩ := hrun true
    exact Tnc.recvAll_run (new_fits junk len) hreads rfl h

/-- Two payloads that need escapes, with a read that ends in an escape. -/
theorem roundTrip_escapes :
    Takes 8 (fun _ => 0) (fun _ => 0) [[0xc0, 0x00, 0xdb], [0xdc, 0x41, 0xc0, 0xc0, 0x00, 0xdb, 0xdd, 0xc0]]
      [[0xc0, 0x41], [0xdb]] ∧
    Tnc.recvAll 8 3 [[0xc0, 0x00, 0xdb], [0xdc, 0x41, 0xc0, 0xc0, 0x00, 0xdb, 0xdd, 0xc0]]
      (.new fun _ => 0) (fun _ => 0) = .ok ([[0xc0, 0x41], [0xdb]], true) :=
  roundTrip_run 8 (fun _ => 0) (fun _ => 0) [[0xc0, 0x41], [0xdb]] _ (by decide) (by decide) (by decide)

end Patty
