import EvmState.Fetcher.Retry
import EvmState.Proof.Command

/-!
# Faults that are waited out

A stream sees of a request only what `start_request` returns (`streamFrom_congr`), and that
does not show how many attempts it took. So server errors, timeouts and refused
connections leave no trace in what the replay command does, as long as the attempts of
each request last (`runReplay_delayed`).
-/

namespace EvmState

/-- The same network, behind some replies more for each request. -/
def Network.delayed (network : Network) (faults : String → Json.Doc → Nat → List Reply) : Network :=
  fun url query k => Retry.delayed (faults url query k) (network url query k)

theorem startRequest_eq (reply : Nat → Reply) :
    startRequest reply = Retry.run verdict reply 0 .maxRetries MAX_RETRIES :=
  attempts_eq reply 0 .maxRetries MAX_RETRIES

/-- A stream depends on what its requests return, and on nothing else. -/
theorem streamFrom_congr {fromStr : String → Option Block} {portal portal' : Portal}
    {toBlock : Option U64}
    (h : ∀ k fromBlock, startRequest (portal k fromBlock toBlock)
      = startRequest (portal' k fromBlock toBlock)) (fuel k : Nat) (current : U64) :
    streamFrom fromStr portal toBlock fuel k current
      = streamFrom fromStr portal' toBlock fuel k current := by
  induction fuel generalizing k current with
  | zero => rfl
  | succ fuel ih =>
      rw [streamFrom, streamFrom, h]
      simp only [ih]

section Delayed

variable {evm : Evm} {keccak256 : Bytes → B256} {fromStr : String → Option Block}
  {display : FetchError → String} {c : Command} {plan : ReplayPlan} {db : StateDb}

/-- What the `k`-th request meets, if it is for the blocks from a number on. -/
abbrev Command.replies (c : Command) (plan : ReplayPlan) (k : Nat) (fromBlock : U64) :
    Nat → Reply :=
  plan.fetcher.portal c.network k fromBlock c.args.toBlock

/-- These faults ask for another attempt, and with them the request settles within the attempts. -/
structure WaitedOut (faults : List Reply) (reply : Nat → Reply) : Prop where
  transient : ∀ r ∈ faults, (verdict r).isAgain = true
  settles : ∃ n result, Retry.SettlesAt verdict reply 0 n result ∧ faults.length + n < MAX_RETRIES

theorem WaitedOut.startRequest_eq {faults : List Reply} {reply : Nat → Reply}
    (h : WaitedOut faults reply) :
    startRequest (Retry.delayed faults reply) = startRequest reply := by
  obtain ⟨n, result, hsettles, hn⟩ := h.settles
  rw [EvmState.startRequest_eq, EvmState.startRequest_eq]
  exact Retry.run_delayed _ hsettles h.transient hn

/--
**Faults that are waited out leave no trace.** Put any replies that ask for another attempt in
front of what a network replies, to each request its own and no more than its attempts
last for: the command makes the same of it, for every database, and no request has waited
longer than fifteen seconds.
-/
theorem runReplay_delayed {faults : String → Json.Doc → Nat → List Reply}
    (hplan : c.plan db = .ok plan)
    (hfaults : ∀ k fromBlock, WaitedOut
      (faults plan.fetcher.portalUrl
        (buildQuery fromBlock c.args.toBlock plan.fetcher.useStateDiffs) k)
      (c.replies plan k fromBlock)) :
    let d : Command := { c with network := c.network.delayed faults }
    runReplay evm keccak256 fromStr display d db = runReplay evm keccak256 fromStr display c db
      ∧ ∀ k fromBlock, (waits (d.replies plan k fromBlock)).sum ≤ 15 := by
  intro d
  refine ⟨?_, fun k fromBlock => sum_waits_le _⟩
  have hplan' : d.plan db = .ok plan := hplan
  -- request for request the portal gives the body it gives without the faults
  have hstream : streamBlocks fromStr (plan.fetcher.portal d.network) c.fuel plan.fromBlock
      c.args.toBlock
      = streamBlocks fromStr (plan.fetcher.portal c.network) c.fuel plan.fromBlock
        c.args.toBlock :=
    streamFrom_congr (fun k fromBlock => (hfaults k fromBlock).startRequest_eq) _ _ _
  simp only [runReplay, hplan, hplan', Command.call, d] at hstream ⊢
  rw [hstream]

end Delayed

/-- Four timeouts before every request. -/
theorem runReplay_delayed_timeouts :
    let evm := Evm.counting fun _ => KECCAK256_EMPTY
    let keccak256 := fun _ => KECCAK256_EMPTY
    let c := twoCommand fun _ => true
    let faults := fun (_ : String) (_ : Json.Doc) (_ : Nat) => List.replicate 4 Reply.transient
    let d : Command := { c with network := c.network.delayed faults }
    runReplay evm keccak256 twoFromStr (fun _ => "lost") d headDb
        = runReplay evm keccak256 twoFromStr (fun _ => "lost") c headDb
      ∧ ∀ k fromBlock, (waits (d.replies (twoPlan 4) k fromBlock)).sum ≤ 15 := by
  refine runReplay_delayed (plan_two _ head_headDb) fun k fromBlock => ⟨?_, ?_⟩
  · intro r hr
    rw [List.eq_of_mem_replicate hr]
    rfl
  · exact ⟨0, _, ⟨fun j hj => by omega, rfl⟩, by decide⟩

end EvmState
