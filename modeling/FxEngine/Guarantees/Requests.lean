import FxEngine.Correctness.Engine
import FxEngine.Correctness.Json

/-! # What an idempotency key is bound to

The stored hash is that of one request: any other method, path or body has another one, as long
as the hash function tells the two texts apart.
-/

namespace FxEngine

open Transactions

/-- The text that is hashed lists the body first. -/
theorem sorted_payload (method path : String) (body : List (String × Json)) :
    (Json.dict [("method", .str method), ("path", .str path), ("body", .dict body)]).sorted =
      .dict [("body", (Json.dict body).sorted), ("method", .str method), ("path", .str path)] := by
  have order : ¬ "path" ≤ "body" ∧ ¬ "method" ≤ "body" ∧ "method" ≤ "path" := by decide
  simp [Json.sorted, Json.sortedFields, Json.sortFields, List.insertionSort, List.orderedInsert, order]

theorem requestPayload_eq_iff {method path method' path' : String} {body body' : List (String × Json)}
    (ok : (Json.dict body).WellFormed) (ok' : (Json.dict body').WellFormed) :
    requestPayload method path body = requestPayload method' path' body' ↔
      method = method' ∧ path = path' ∧ (Json.dict body).Same (.dict body') := by
  have whole : ∀ {m p : String} {b : List (String × Json)}, (Json.dict b).WellFormed →
      (Json.dict [("method", .str m), ("path", .str p), ("body", .dict b)]).WellFormed :=
    fun ok => ⟨trivial, trivial, ok, trivial⟩
  rw [requestPayload, requestPayload, Json.dumps_eq_iff (whole ok) (whole ok'), Json.Same, sorted_payload,
    sorted_payload]
  simp [Json.Same]
  tauto

section Requests

variable [Platform]

/-- Two texts that the hash function does not tell apart. -/
def Collision (text text' : String) : Prop := text ≠ text' ∧ Platform.sha256 text = Platform.sha256 text'

theorem requestHash_eq_iff {method path method' path' : String} {body body' : List (String × Json)}
    (ok : (Json.dict body).WellFormed) (ok' : (Json.dict body').WellFormed) :
    requestHash method path body = requestHash method' path' body' ↔
      (method = method' ∧ path = path' ∧ (Json.dict body).Same (.dict body')) ∨
        Collision (requestPayload method path body) (requestPayload method' path' body') := by
  rw [← requestPayload_eq_iff ok ok', requestHash, requestHash, Collision]
  by_cases same : requestPayload method path body = requestPayload method' path' body' <;> simp [same]

variable [Settings] {start : Instant} {σ : Engine}

/-- A key answers for one executed quote: of all requests there could be, just the execution of
that quote has the stored hash, unless the hash function collides. -/
theorem Engine.Reachable.key_bound (h : Engine.Reachable start σ) {row : IdempotencyKey}
    (stored : row ∈ σ.world.db.idempotencyKeys) :
    ∃ executionId q debited credited, Completed σ.world.db row executionId q debited credited ∧
      ∀ method path body, (Json.dict body).WellFormed →
        (requestHash method path body = row.requestHash ↔
          (method = httpPost ∧ path = executionsPath ∧ (Json.dict body).Same (.dict (executionBody q.id))) ∨
            Collision (requestPayload method path body)
              (requestPayload httpPost executionsPath (executionBody q.id))) := by
  obtain ⟨executionId, q, debited, credited, completed⟩ := h.invariant.claimed.completed row stored
  refine ⟨executionId, q, debited, credited, completed, fun method path body ok => ?_⟩
  have hash : row.requestHash = executionRequestHash q.id := by
    obtain ⟨completedAt, content⟩ := completed.content
    rw [content]
    rfl
  rw [hash, executionRequestHash]
  exact requestHash_eq_iff ok ⟨trivial, trivial⟩

end Requests

attribute [local instance] Sample.platform Sample.settings

/-- The key `k` of the sample day; the sample hash has no collisions. -/
theorem Engine.key_bound_sample : ∃ (σ : Engine) (row : IdempotencyKey) (q : Quote), Engine.Reachable 0 σ ∧
    row ∈ σ.world.db.idempotencyKeys ∧ σ.world.db.quote q.id = some q ∧
    ∀ method path body, (Json.dict body).WellFormed → (requestHash method path body = row.requestHash ↔
      method = "POST" ∧ path = "/executions" ∧ (Json.dict body).Same (.dict (executionBody q.id))) := by
  obtain ⟨σ, reached, db⟩ := Sample.reachable (Sample.prepared ++ Sample.executed) (by decide)
  have one : σ.world.db.idempotencyKeys.length = 1 := by
    rw [db]
    decide +kernel
  obtain ⟨row, stored⟩ := List.exists_mem_of_length_pos (l := σ.world.db.idempotencyKeys) (by omega)
  obtain ⟨executionId, q, debited, credited, completed, bound⟩ := reached.key_bound stored
  refine ⟨σ, row, q, reached, stored, completed.quote, fun method path body ok => ?_⟩
  have none : ∀ text text', ¬ Collision text text' := fun text text' collision => collision.1 collision.2
  have exactly := bound method path body ok
  simp only [none, or_false] at exactly
  exact exactly

end FxEngine
