import VirtualPlc.Fieldbus.Requests

/-!
# Frame boundaries over a run

A response that does not answer its request, or that is too large, is rejected after its header. Its
PDU then stays in the stream, and the next response is read from the middle of a frame.
`framing_kept_iff` says which responses keep the reads at frame boundaries.
-/

set_option autoImplicit false

namespace VirtualPlc.Fieldbus

open VirtualPlc.Runtime VirtualPlc.Word

namespace ModbusTcpDriver

variable {b : Build} {d d' : ModbusTcpDriver} {x : Exchange}

/-- What was read from the connection, if there is one, are whole frames. -/
def AtBoundary (d : ModbusTcpDriver) : Prop :=
  ∀ conn, d.connection = some conn → mbapFraming.Whole conn.received

/-- The response, if its header is read in full, announces no PDU or one that `send_request` reads.
-/
def Kept (d : ModbusTcpDriver) (x : Exchange) : Prop :=
  d.connection.isSome = true → ∀ header, x.headerRead = some header →
    header.length = 1 ∨ header.Accepted d.nextId d.config.unitId

/-- From a frame boundary, a request ends at one exactly if the response is kept. -/
theorem atBoundary_sendRequest_iff {pdu : List Byte} {r : PlcResult (List Byte)}
    (h : d.sendRequest b pdu x = .ok (r, d')) (hd : d.AtBoundary) :
    d'.AtBoundary ↔ d.Kept x := by
  cases sendRequest_outcome h with
  | notConnected e hnone =>
    constructor
    · intro _ hsome
      rw [hnone] at hsome
      cases hsome
    · exact fun _ => hd
  | dropped e _ _ hnone failed =>
    constructor
    · exact fun _ _ header hread => .inr (failed header hread).1
    · intro _ conn hconn
      rw [hnone] at hconn
      cases hconn
  | rejected e _ _ conn hbefore bytes header hparsed hread hunaccepted hafter =>
    -- the header alone ends a frame exactly if it announces nothing but the unit id
    have hstream : d'.AtBoundary ↔ header.length = 1 := by
      rw [← whole_header_iff (show bytes.toList.length = MbapHeader.size by simp; rfl) hparsed,
        ← (hd conn hbefore).whole_append]
      constructor
      · exact fun h => h _ hafter
      · intro hwhole conn' hconn'
        rw [hafter] at hconn'
        cases hconn'
        exact hwhole
    rw [hstream]
    constructor
    · intro hone _ header' hread'
      rw [hread] at hread'
      cases hread'
      exact .inl hone
    · intro hkept
      rcases hkept (by rw [hbefore]; rfl) header hread with hone | haccepted
      · exact hone
      · exact absurd haccepted hunaccepted
  | received _ _ conn hbefore bytes header hparsed hread haccepted pdu _ hafter _ =>
    constructor
    · intro _ _ header' hread'
      rw [hread] at hread'
      cases hread'
      exact .inr haccepted
    · intro _ conn' hconn'
      rw [hafter] at hconn'
      cases hconn'
      rw [List.append_assoc, (hd conn hbefore).whole_append]
      apply whole_response (by simp; rfl) hparsed
      have hpos := haccepted.2.1
      rw [Vector.length_toList]
      omega

/-- What happens to a driver. -/
inductive Operation where
  | connect (results : Connecting)
  | reconnect (attempt : Attempt)
  | request (pdu : List Byte) (x : Exchange)
  | shutdown

/-- One operation. -/
def apply (b : Build) (d : ModbusTcpDriver) : Operation → Except Failure ModbusTcpDriver
  | .connect results => .ok (d.connect results).2
  | .reconnect attempt => .ok (d.tryReconnect attempt).2
  | .request pdu x => do
    let (_, d) ← d.sendRequest b pdu x
    return d
  | .shutdown => .ok d.shutdown.2

/-- Operations in order, up to the first panic. -/
def run (b : Build) (d : ModbusTcpDriver) (ops : List Operation) : Except Failure ModbusTcpDriver :=
  ops.foldlM (apply b) d

theorem run_concat {ops : List Operation} {op : Operation}
    (h : run b d (ops ++ [op]) = .ok d') :
    ∃ d₁, run b d ops = .ok d₁ ∧ apply b d₁ op = .ok d' :=
  foldlM_concat_eq_ok.mp h

theorem run_request {ops : List Operation} {pdu : List Byte} {d₁ : ModbusTcpDriver}
    {r : PlcResult (List Byte)} (hrun : run b d ops = .ok d₁)
    (hsend : d₁.sendRequest b pdu x = .ok (r, d')) :
    run b d (ops ++ [.request pdu x]) = .ok d' := by
  apply foldlM_concat_eq_ok.mpr
  refine ⟨d₁, hrun, ?_⟩
  rw [apply, hsend]
  rfl

/-- Connecting starts a new stream or leaves the connection alone. -/
theorem atBoundary_connect (hd : d.AtBoundary) (results : Connecting) :
    (d.connect results).2.AtBoundary := by
  unfold connect
  split
  · exact hd
  · exact hd
  · exact hd
  · exact hd
  · intro conn hconn
    cases hconn
    exact .nil

theorem atBoundary_tryReconnect (hd : d.AtBoundary) (attempt : Attempt) :
    (d.tryReconnect attempt).2.AtBoundary := by
  unfold tryReconnect
  split
  · exact hd
  · split
    · exact hd
    · have hstarting : ({ d with
          reconnectAttempts := d.reconnectAttempts + 1
          state := .reconnecting } : ModbusTcpDriver).AtBoundary := hd
      have hconnect := atBoundary_connect hstarting attempt.connecting
      dsimp only
      generalize ({ d with
        reconnectAttempts := d.reconnectAttempts + 1
        state := .reconnecting } : ModbusTcpDriver).connect attempt.connecting = answer
        at hconnect ⊢
      obtain ⟨r, d₁⟩ := answer
      cases r with
      | error e => exact hconnect
      | ok u => exact hconnect

/-- The reads of a run stay at frame boundaries exactly if every request that returns keeps its
response. -/
theorem framing_kept_iff (b : Build) (config : ModbusTcpConfig) (ops : List Operation) :
    (∀ pre d, pre <+: ops → run b (.withConfig config) pre = .ok d → d.AtBoundary) ↔
      ∀ pre pdu x d r d', pre ++ [.request pdu x] <+: ops →
        run b (.withConfig config) pre = .ok d → d.sendRequest b pdu x = .ok (r, d') →
          d.Kept x := by
  constructor
  -- the stream is at a boundary before the request and after it
  · intro h pre pdu x d r d' hpre hrun hsend
    have hd : d.AtBoundary := h pre d ((List.prefix_append _ _).trans hpre) hrun
    exact (atBoundary_sendRequest_iff hsend hd).mp (h _ d' hpre (run_request hrun hsend))
  · intro h pre
    -- only a request can leave a boundary, and h says that each keeps it
    induction pre using List.reverseRecOn with
    | nil =>
      intro d _ hrun conn hconn
      cases hrun
      cases hconn
    | append_singleton pre op ih =>
      intro d' hpre hrun
      obtain ⟨d, hbefore, hop⟩ := run_concat hrun
      have hd : d.AtBoundary := ih d ((List.prefix_append _ _).trans hpre) hbefore
      cases op with
      | connect results =>
        cases hop
        exact atBoundary_connect hd results
      | reconnect attempt =>
        cases hop
        exact atBoundary_tryReconnect hd attempt
      | shutdown =>
        cases hop
        intro conn hconn
        cases hconn
      | request pdu x =>
        rw [apply] at hop
        cases hsend : d.sendRequest b pdu x with
        | error failure =>
          rw [hsend] at hop
          cases hop
        | ok answer =>
          obtain ⟨r, d₁⟩ := answer
          rw [hsend] at hop
          cases hop
          exact (atBoundary_sendRequest_iff hsend hd).mpr (h pre pdu x d r _ hpre hbefore hsend)

/-- A server whose response to the first request has transaction identifier 0 and announces a PDU of
four bytes. -/
def staleResponse : Exchange where
  send := .ok ()
  header := .ok #v[0, 0, 0, 0, 0, 5, 1]
  pdu := fun n => .ok (Vector.replicate n 0)

/-- A connection and a read of 16 coils. -/
def staleRun : List Operation :=
  [.connect ⟨.ok (), .ok (), .ok (), .ok ()⟩, .request (wordsPdu .readCoils 0 16) staleResponse]

/-- After the rejected response the stream is in the middle of a frame. -/
theorem framing_lost : ¬ ∀ (b : Build) (config : ModbusTcpConfig) (ops pre : List Operation)
    (d : ModbusTcpDriver), pre <+: ops → run b (.withConfig config) pre = .ok d → d.AtBoundary := by
  intro h
  let connected : ModbusTcpDriver :=
    ((withConfig .default).connect ⟨.ok (), .ok (), .ok (), .ok ()⟩).2
  obtain ⟨⟨r, d⟩, hsend⟩ : ∃ y, connected.sendRequest .release (wordsPdu .readCoils 0 16)
      staleResponse = .ok y := sendRequest_returns_iff.mpr fun hb => by cases hb
  have hconnect : run .release (withConfig .default) (staleRun.take 1) = .ok connected := rfl
  have hsplit : staleRun =
      staleRun.take 1 ++ [.request (wordsPdu .readCoils 0 16) staleResponse] := rfl
  have hrun : run .release (withConfig .default) staleRun = .ok d := by
    rw [hsplit]
    exact run_request hconnect hsend
  have hstart : connected.AtBoundary := h .release .default staleRun (staleRun.take 1) connected
    (List.take_prefix _ _) hconnect
  have hkept := (atBoundary_sendRequest_iff hsend hstart).mp
    (h .release .default staleRun staleRun d (List.prefix_refl _) hrun)
  have hresponse : (⟨0, 0, 5, 1⟩ : MbapHeader).length = 1 ∨
      (⟨0, 0, 5, 1⟩ : MbapHeader).Accepted connected.nextId connected.config.unitId :=
    hkept rfl _ rfl
  revert hresponse
  decide

end ModbusTcpDriver

end VirtualPlc.Fieldbus
