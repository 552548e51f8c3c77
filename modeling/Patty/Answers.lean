import Patty.Deeds.Calls
import Patty.Upkeep.Outstanding

/-! # Every call is answered once, in order

A client writes a call and waits for the response, which it takes for the next thing that it reads. So the server
owes it one response to each call, of the call's own kind and in the calls' order; only `connect` is answered later.
The history of the calls that the server has taken follows the run as a ghost. -/

namespace Patty

/-- The server, with the calls other than `connect` that it has taken from the client, in order. -/
structure Asked where
  world : World
  calls : List Nat

/-- A step of the server, which may take a call. -/
def Asked.Step (client : Nat) (s : Asked) (inp : Input) (s' : Asked) : Prop :=
  s.world.Step inp s'.world ∧ s'.calls = s.calls ++ (s.world.takes client inp).toList

/-- As long as the server runs, it has answered what it has taken. -/
structure Asked.Answered (client : Nat) (s : Asked) : Prop where
  le : s.world.prompts client <+: s.calls
  eq : s.world.running → s.world.prompts client = s.calls

variable {c : Config} {client : Nat} {w w' : World} {s s' : Asked} {inp : Input}

theorem World.takes_ne_connect {n : Nat} (h : w.takes client inp = some n) : n ≠ PATTY_CLIENT_CONNECT := by
  rw [takes] at h
  split_ifs at h
  split at h
  · split_ifs at h with hcall
    cases h
    exact hcall.2
  · cases h

/-- A step that goes on answers the call that it takes. -/
theorem World.Goes.prompts (h : w.Goes inp w') (client : Nat) :
    w'.prompts client = w.prompts client ++ (w.takes client inp).toList := by
  obtain ⟨w₂, hends, h⟩ := h
  have hend : w'.prompts client = w₂.prompts client :=
    congrArg (List.filterMap (Out.prompt client)) (congrArg Goods.log hends.goods)
  rw [hend]
  rcases h with ⟨hdeeds, hnone⟩ | ⟨c, n, ⟨w₁, r, hdeeds, hr, -, hgoods⟩, htakes, hother⟩
  · rw [hnone, Option.toList_none, List.append_nil, prompts_deeds hdeeds]
    rfl
  · have hlog : w₂.log = w₁.log ++ [.respond c r] := congrArg Goods.log hgoods
    have hn := hr ▸ World.takes_ne_connect htakes
    have hw₁ : w₁.prompts client = w.prompts client := prompts_deeds hdeeds client
    rw [World.prompts, hlog, List.filterMap_append, ← World.prompts, hw₁]
    congr 1
    by_cases hc : c = client
    · subst c
      have hprompt : (Out.respond client r).prompt client = some r.call := if_pos ⟨rfl, hn⟩
      rw [htakes, List.filterMap_cons_some hprompt, hr]
      rfl
    · have hprompt : (Out.respond c r).prompt client = none := if_neg fun h => hc h.1
      rw [hother client (Ne.symm hc), List.filterMap_cons_none hprompt]
      rfl

theorem answered_start : Asked.Answered client ⟨.start c, []⟩ := ⟨List.nil_prefix, fun _ => rfl⟩

theorem answered_step (hs : s.Answered client) (h : s.Step client inp s') : s'.Answered client := by
  obtain ⟨hstep, hcalls⟩ := h
  have heq := hs.eq (World.step_iff.mp hstep).1
  rcases goes_step hstep with hgoes | ⟨hstopped, hprompts⟩
  · have heq' : s'.world.prompts client = s'.calls := by rw [hgoes.prompts, hcalls, heq]
    exact ⟨heq' ▸ List.prefix_rfl, fun _ => heq'⟩
  · refine ⟨?_, fun hrunning => absurd (hstopped.symm.trans hrunning) Bool.false_ne_true⟩
    rw [hprompts, heq, hcalls]
    exact List.prefix_append ..

/-- Whatever the clients, the peers and the system do, the responses that the server has written to a client are
those to the calls that it has taken from it, one to each, in their order; where it has ended, to those before. -/
theorem answers_run (h : Run (Asked.Step client) (fun _ _ => True) ⟨.start c, []⟩ s) :
    s.world.prompts client <+: s.calls ∧ (s.world.running → s.world.prompts client = s.calls) := by
  have hs : s.Answered client :=
    h.invariant (fun _ _ _ hs _ hstep => answered_step hs hstep) answered_start
  exact ⟨hs.le, hs.eq⟩

/-- Every run has its calls. -/
theorem asked_run {C : World → Input → Prop} (h : Run World.Step C w w') (calls : List Nat) :
    ∃ calls', Run (Asked.Step client) (fun _ _ => True) ⟨w, calls⟩ ⟨w', calls'⟩ := by
  induction h with
  | refl => exact ⟨calls, .refl⟩
  | tail _ _ hstep ih =>
    obtain ⟨calls', ih⟩ := ih
    exact ⟨_, ih.tail trivial ⟨hstep, rfl⟩⟩

/-- A client makes a socket, binds it and listens. -/
theorem answers_run_listen : ∃ s, Run (Asked.Step 5) (fun _ _ => True) ⟨.start oneInterface, []⟩ s ∧
    s.calls = [PATTY_CLIENT_SOCKET, PATTY_CLIENT_BIND, PATTY_CLIENT_LISTEN] := by
  obtain ⟨calls, hrun⟩ := asked_run run_accept []
  have hworld : ((World.start oneInterface).after acceptInputs).running ∧
      ((World.start oneInterface).after acceptInputs).prompts 5 =
        [PATTY_CLIENT_SOCKET, PATTY_CLIENT_BIND, PATTY_CLIENT_LISTEN] := by
    decide +kernel
  have hcalls := (answers_run hrun).2
  dsimp only at hcalls
  rw [hworld.2] at hcalls
  exact ⟨_, hrun, (hcalls hworld.1).symm⟩

end Patty
