import AIService.Http.Turns

/-!
# How the bytes are cut makes no difference

`deliver` is a connection that gets its bytes in pieces.  What it shows, and what is left
of it at the end, is what one piece with all the bytes gives.
-/

namespace AIService.Http

variable {σ : Type} {httpCallback : HttpCallback σ}

/-- The callbacks of a connection, one for each piece that arrives. -/
def deliver (httpCallback : HttpCallback σ) : Conn σ → List Bytes → Option (List Obs × Conn σ)
  | conn, [] => some ([], conn)
  | conn, data :: rest => do
      let (out, conn) ← onMessage httpCallback conn data
      let (later, conn) ← deliver httpCallback conn rest
      return (out ++ later, conn)

/-- A connection that was just established. -/
def Conn.fresh (app : σ) : Conn σ := { app := app }

theorem Conn.fresh_resting (app : σ) : (Conn.fresh app).Resting := .inr ⟨nofun, nofun⟩

theorem advance_fresh (httpCallback : HttpCallback σ) (app : σ) :
    advance httpCallback (.fresh app) = none := rfl

theorem Conn.feed_feed (conn : Conn σ) (data more : Bytes) :
    (conn.feed data).feed more = conn.feed (data ++ more) := by
  rw [Conn.feed, Conn.feed, Conn.feed, List.append_assoc]

theorem Conn.feed_nil (conn : Conn σ) : conn.feed [] = conn := by
  rw [Conn.feed, List.append_nil]

/-- Every callback returns, and the pieces are fed to the machine one by one. -/
theorem deliver_fedAll (httpCallback : HttpCallback σ) {conn : Conn σ} (pieces : List Bytes)
    (resting : conn.Resting) : ∃ out conn',
      deliver httpCallback conn pieces = some (out, conn') ∧
        FedAll (advance httpCallback) Conn.feed conn pieces out conn' := by
  induction pieces generalizing conn with
  | nil => exact ⟨[], conn, rfl, .nil⟩
  | cons data rest ih =>
      obtain ⟨out, conn', returned, run, resting'⟩ := onMessage_settles httpCallback data resting
      obtain ⟨later, conn'', returned', fed⟩ := ih resting'
      refine ⟨out ++ later, conn'', ?_, .cons run fed⟩
      rw [deliver, returned]
      simp [returned']

/-- Pieces amount to their concatenation. -/
theorem deliver_settles (httpCallback : HttpCallback σ) (app : σ) (pieces : List Bytes) :
    ∃ out conn', deliver httpCallback (.fresh app) pieces = some (out, conn') ∧
      Settles (advance httpCallback) ((Conn.fresh app).feed pieces.flatten) out conn' := by
  obtain ⟨out, conn', returned, fed⟩ :=
    deliver_fedAll httpCallback pieces (Conn.fresh_resting app)
  refine ⟨out, conn', returned, ?_⟩
  exact settles_feedAll advance_resumable Conn.feed_feed Conn.feed_nil
    (advance_fresh httpCallback app) fed

/-- Two ways of cutting one byte stream give the same dispatches, the same bytes sent, the
same shutdown, and the same parser and unread bytes at the end; and the callbacks return. -/
theorem delivery_cut_independent (httpCallback : HttpCallback σ) (app : σ)
    (pieces pieces' : List Bytes) (same : pieces.flatten = pieces'.flatten) :
    (deliver httpCallback (.fresh app) pieces).isSome ∧
      deliver httpCallback (.fresh app) pieces = deliver httpCallback (.fresh app) pieces' := by
  obtain ⟨out, conn, returned, run⟩ := deliver_settles httpCallback app pieces
  obtain ⟨out', conn', returned', run'⟩ := deliver_settles httpCallback app pieces'
  rw [same] at run
  obtain ⟨rfl, rfl⟩ := run.unique run'
  rw [returned, returned']
  exact ⟨rfl, rfl⟩

/-- A request cut inside its CRLF, and a handler that answers every request. -/
theorem delivery_cut_independent_inside_crlf :
    deliver (fun n _ resp => { result := .ok resp, app := n + 1 }) (.fresh 0)
        [bytes "GET / HTTP/1.1" ++ [13], [10] ++ crlf] =
      deliver (fun n _ resp => { result := .ok resp, app := n + 1 }) (.fresh 0)
        [bytes "GET / HTTP/1.1" ++ crlf ++ crlf] :=
  (delivery_cut_independent _ (0 : Nat) _ _ (by decide)).2

end AIService.Http
