import VirtualPlc.Fieldbus.Modbus

/-!
# What a request can do

`sendRequest_outcome` lists what `send_request` leaves when it returns, and
`sendRequest_returns_iff` says when it does.
-/

set_option autoImplicit false

namespace VirtualPlc.Fieldbus

open VirtualPlc.Runtime VirtualPlc.Word

/-- The header of the response, when the request is sent and the header read in full. -/
def Exchange.headerRead (x : Exchange) : Option MbapHeader :=
  match x.send, x.header with
  | .ok (), .ok bytes => (MbapHeader.fromBytes bytes.toList).toOption
  | _, _ => none

/-- A header whose PDU `send_request` reads: it answers the request and the PDU fits the buffer. -/
def MbapHeader.Accepted (header : MbapHeader) (transactionId : BitVec 16) (unitId : Byte) : Prop :=
  header.Answers transactionId unitId ∧ 1 ≤ header.length.toNat ∧ header.length.toNat ≤ 254

instance (header : MbapHeader) (transactionId : BitVec 16) (unitId : Byte) :
    Decidable (header.Accepted transactionId unitId) :=
  inferInstanceAs (Decidable (_ ∧ _ ∧ _))

/-- A sequence that returns stops at an error or goes on with a value. -/
theorem onSuccess_eq_ok {α β : Type} {call : Except Failure (Answer α)}
    {next : α → ModbusTcpDriver → Except Failure (Answer β)} {r : PlcResult β}
    {d' : ModbusTcpDriver} (h : onSuccess call next = .ok (r, d')) :
    (∃ e, call = .ok (.error e, d') ∧ r = .error e) ∨
      ∃ value d₁, call = .ok (.ok value, d₁) ∧ next value d₁ = .ok (r, d') := by
  match call, h with
  | .error _, h => cases h
  | .ok (.error e, _), h =>
    cases h
    exact .inl ⟨e, rfl, rfl⟩
  | .ok (.ok value, d₁), h => exact .inr ⟨value, d₁, rfl, h⟩

namespace ModbusTcpDriver

variable {b : Build} {d d' : ModbusTcpDriver} {x : Exchange}

/-- The transaction identifier of the next request. -/
def nextId (d : ModbusTcpDriver) : BitVec 16 := d.transactionId + 1

/-- Bytes read into the buffer are what a slice of it gives. -/
theorem slice_received (d : ModbusTcpDriver) (offset : Nat) (bytes : List Byte)
    (hfits : offset + bytes.length ≤ 260) :
    slice (d.received offset bytes).rxBuffer.toList offset (offset + bytes.length) = .ok bytes := by
  have hlen : (d.received offset bytes).rxBuffer.toList.length = 260 := by simp
  rw [slice_eq ⟨Nat.le_add_right _ _, by omega⟩]
  refine congrArg Except.ok (List.ext_getElem ?_ ?_)
  · rw [List.length_drop, List.length_take, hlen]
    omega
  · intro i hi hi'
    have hat : offset + i < 260 := by omega
    simp [received, Vector.getElem_ofFn, hi']

/-- What neither the network nor a request changes. -/
structure Frame (d d' : ModbusTcpDriver) : Prop where
  config : d'.config = d.config
  inputs : d'.inputs = d.inputs
  outputs : d'.outputs = d.outputs

/-- What `send_request` leaves. -/
inductive RequestOutcome (d : ModbusTcpDriver) (x : Exchange) :
    PlcResult (List Byte) → ModbusTcpDriver → Prop where
  | notConnected (e : PlcError) (connection : d.connection = none) :
    RequestOutcome d x (.error e) d
  | dropped (e : PlcError) (d' : ModbusTcpDriver) (frame : Frame d d')
    (connection : d'.connection = none)
    (failed : ∀ header, x.headerRead = some header → header.Accepted d.nextId d.config.unitId ∧
      (x.pdu (header.length.toNat - 1)).toOption = none) :
    RequestOutcome d x (.error e) d'
  | rejected (e : PlcError) (d' : ModbusTcpDriver) (frame : Frame d d') (conn : Connection)
    (before : d.connection = some conn) (bytes : Vector Byte 7) (header : MbapHeader)
    (parsed : MbapHeader.fromBytes bytes.toList = .ok header) (read : x.headerRead = some header)
    (unaccepted : ¬ header.Accepted d.nextId d.config.unitId)
    (connection : d'.connection = some ⟨conn.received ++ bytes.toList⟩) :
    RequestOutcome d x (.error e) d'
  | received (d' : ModbusTcpDriver) (frame : Frame d d') (conn : Connection)
    (before : d.connection = some conn) (bytes : Vector Byte 7) (header : MbapHeader)
    (parsed : MbapHeader.fromBytes bytes.toList = .ok header) (read : x.headerRead = some header)
    (accepted : header.Accepted d.nextId d.config.unitId)
    (pdu : Vector Byte (header.length.toNat - 1))
    (answered : x.pdu (header.length.toNat - 1) = .ok pdu)
    (connection : d'.connection = some ⟨conn.received ++ bytes.toList ++ pdu.toList⟩)
    (transactionId : d'.transactionId = d.nextId) :
    RequestOutcome d x (checkException pdu.toList) d'

theorem receivePdu_eq {n : Nat} (conn : Connection) (hconn : d.connection = some conn)
    (hn : n ≤ 253) :
    d.receivePdu n x =
      match x.pdu n with
      | .error e => .ok (.error (.fieldbusError s!"Receive PDU failed: {e}"), d.disconnected)
      | .ok bytes =>
        .ok (checkException bytes.toList, d.received MbapHeader.size bytes.toList) := by
  unfold receivePdu
  rw [hconn]
  cases hpdu : x.pdu n with
  | error e => rfl
  | ok bytes =>
    dsimp only
    have hlen : bytes.toList.length = n := by simp
    have hslice := d.slice_received MbapHeader.size bytes.toList
      (by rw [hlen]; unfold MbapHeader.size; omega)
    rw [hlen] at hslice
    rw [hslice]
    rfl

/-- Once the header has been read, the comparisons decide, then the length. -/
theorem receiveResponse_eq {tid : BitVec 16} {conn : Connection} {bytes : Vector Byte 7}
    {header : MbapHeader} (hconn : d.connection = some conn) (hheader : x.header = .ok bytes)
    (hparsed : MbapHeader.fromBytes bytes.toList = .ok header) :
    d.receiveResponse b tid x =
      match header.validate tid d.config.unitId with
      | .error e => .ok (.error e, d.received 0 bytes.toList)
      | .ok () =>
        match u16Sub b header.length 1 with
        | .error failure => .error failure
        | .ok length =>
          if 253 < length.toNat then
            .ok (.error (.fieldbusError s!"Response too large: {length.toNat} bytes"),
              d.received 0 bytes.toList)
          else (d.received 0 bytes.toList).receivePdu length.toNat x := by
  have hlen : bytes.toList.length = 7 := by simp
  have hslice : slice (d.received 0 bytes.toList).rxBuffer.toList 0 MbapHeader.size =
      .ok bytes.toList := by
    have hall := d.slice_received 0 bytes.toList (by omega)
    rwa [hlen] at hall
  have hroom : usizeSub b (d.received 0 bytes.toList).rxBuffer.toList.length MbapHeader.size =
      .ok 253 := by
    rw [Vector.length_toList]
    exact usizeSub_eq (by decide)
  unfold receiveResponse
  rw [hconn, hheader]
  dsimp only
  rw [hslice]
  simp only [bind, Except.bind]
  rw [hparsed]
  dsimp only
  cases hvalid : header.validate tid d.config.unitId with
  | error e =>
    have hvalid' : header.validate tid (d.received 0 bytes.toList).config.unitId = .error e :=
      hvalid
    rw [hvalid']
    rfl
  | ok u =>
    have hvalid' : header.validate tid (d.received 0 bytes.toList).config.unitId = .ok u := hvalid
    rw [hvalid', hroom]
    cases u16Sub b header.length 1 with
    | error failure => rfl
    | ok length => rfl

/-- The subtraction for the unit identifier. A release build wraps at an empty frame. -/
theorem u16Sub_one {length pduLength : BitVec 16} (h : u16Sub b length 1 = .ok pduLength) :
    (1 ≤ length.toNat ∧ pduLength.toNat = length.toNat - 1) ∨
      length.toNat = 0 ∧ pduLength.toNat = 65535 := by
  have hsub : pduLength = length - 1 := by
    rcases Build.result_eq_ok h with ⟨-, heq⟩ | heq <;> exact heq
  have hone : (1 : BitVec 16).toNat = 1 := rfl
  have hlt := length.isLt
  rw [hsub, BitVec.toNat_sub, hone]
  omega

theorem receiveResponse_outcome {d₁ : ModbusTcpDriver} {r : PlcResult (List Byte)}
    {conn : Connection} (hframe : Frame d d₁) (hconn : d.connection = some conn)
    (hconn₁ : d₁.connection = some conn) (hid : d₁.transactionId = d.nextId)
    (hsend : x.send = .ok ()) (h : d₁.receiveResponse b d.nextId x = .ok (r, d')) :
    RequestOutcome d x r d' := by
  cases hheader : x.header with
  | error e =>
    unfold receiveResponse at h
    rw [hconn₁, hheader] at h
    cases h
    refine .dropped _ _ ⟨hframe.config, hframe.inputs, hframe.outputs⟩ rfl ?_
    intro header hread
    simp [Exchange.headerRead, hsend, hheader] at hread
  | ok bytes =>
    obtain ⟨header, hparsed⟩ :=
      MbapHeader.fromBytes_of_length (show bytes.toList.length = 7 by simp)
    have hread : x.headerRead = some header := by
      simp [Exchange.headerRead, hsend, hheader, hparsed, Except.toOption]
    have hafter : (d₁.received 0 bytes.toList).connection =
        some ⟨conn.received ++ bytes.toList⟩ := by
      simp [received, hconn₁]
    have hrejected : ∀ e, ¬ header.Accepted d.nextId d.config.unitId →
        RequestOutcome d x (.error e) (d₁.received 0 bytes.toList) := by
      intro e hnot
      exact .rejected e _ ⟨hframe.config, hframe.inputs, hframe.outputs⟩ conn hconn bytes header
        hparsed hread hnot hafter
    rw [receiveResponse_eq hconn₁ hheader hparsed, hframe.config] at h
    by_cases hanswers : header.Answers d.nextId d.config.unitId
    · rw [MbapHeader.validate_of_answers hanswers] at h
      dsimp only at h
      cases hsub : u16Sub b header.length 1 with
      | error failure =>
        rw [hsub] at h
        cases h
      | ok pduLength =>
        rw [hsub] at h
        dsimp only at h
        split at h
        · next hlarge =>
          -- a length of zero wraps to one that is too large in a release build
          cases h
          apply hrejected
          rintro ⟨-, hpos, hle⟩
          rcases u16Sub_one hsub with ⟨-, heq⟩ | ⟨hzero, -⟩
          · omega
          · omega
        · next hsmall =>
          -- a length that fits cannot have wrapped
          obtain ⟨hpos, heq⟩ : 1 ≤ header.length.toNat ∧
              pduLength.toNat = header.length.toNat - 1 := by
            rcases u16Sub_one hsub with hexact | ⟨-, heq⟩
            · exact hexact
            · omega
          have haccepted : header.Accepted d.nextId d.config.unitId :=
            ⟨hanswers, hpos, by omega⟩
          rw [receivePdu_eq _ hafter (by omega), heq] at h
          cases hpdu : x.pdu (header.length.toNat - 1) with
          | error e =>
            rw [hpdu] at h
            cases h
            refine .dropped _ _ ⟨hframe.config, hframe.inputs, hframe.outputs⟩ rfl ?_
            intro header' hread'
            rw [hread] at hread'
            cases hread'
            exact ⟨haccepted, by rw [hpdu]; rfl⟩
          | ok pdu =>
            rw [hpdu] at h
            cases h
            refine .received _ ?_ conn hconn bytes header hparsed hread haccepted pdu hpdu ?_ ?_
            · exact ⟨hframe.config, hframe.inputs, hframe.outputs⟩
            · simp [received, hconn₁]
            · exact hid
    · obtain ⟨e, he⟩ := MbapHeader.validate_of_not_answers hanswers
      rw [he] at h
      cases h
      exact hrejected e fun haccepted => hanswers haccepted.1

/-- Everything `send_request` can do when it returns. -/
theorem sendRequest_outcome {pdu : List Byte} {r : PlcResult (List Byte)}
    (h : d.sendRequest b pdu x = .ok (r, d')) : RequestOutcome d x r d' := by
  unfold sendRequest at h
  cases hconn : d.connection with
  | none =>
    rw [hconn] at h
    cases h
    exact .notConnected _ hconn
  | some conn =>
    rw [hconn] at h
    change (MbapHeader.new b d.nextId (BitVec.ofNat 16 pdu.length) d.config.unitId >>= _) = _ at h
    cases hnew : MbapHeader.new b d.nextId (BitVec.ofNat 16 pdu.length) d.config.unitId with
    | error failure =>
      rw [hnew] at h
      cases h
    | ok header =>
      rw [hnew] at h
      cases hsend : x.send with
      | error e =>
        simp only [hsend] at h
        cases h
        refine .dropped _ _ ⟨rfl, rfl, rfl⟩ rfl ?_
        intro header' hread
        simp [Exchange.headerRead, hsend] at hread
      | ok u =>
        simp only [hsend] at h
        have hreceive : (d.nextTransactionId.2.sent (header.toBytes ++ pdu)).receiveResponse b
            d.nextId x = .ok (r, d') := h
        refine receiveResponse_outcome ?_ hconn ?_ ?_ hsend hreceive
        · exact ⟨rfl, rfl, rfl⟩
        · exact hconn
        · rfl

/-! ## Calls that return -/

/-- Neither length overflows: the one sent, and the one of a response that answers the request. -/
def LengthsInRange (d : ModbusTcpDriver) (pdu : List Byte) (x : Exchange) : Prop :=
  d.connection.isSome = true → pdu.length % 2 ^ 16 ≠ 2 ^ 16 - 1 ∧
    ∀ header, x.headerRead = some header → header.Answers d.nextId d.config.unitId →
      header.length ≠ 0

theorem receiveResponse_returns_iff {tid : BitVec 16} {conn : Connection}
    (hconn : d.connection = some conn) (hsend : x.send = .ok ()) :
    (∃ y, d.receiveResponse b tid x = .ok y) ↔
      (b = .debug → ∀ header, x.headerRead = some header →
        header.Answers tid d.config.unitId → header.length ≠ 0) := by
  cases hheader : x.header with
  | error e =>
    constructor
    · intro _ _ header hread
      simp [Exchange.headerRead, hsend, hheader] at hread
    · intro _
      unfold receiveResponse
      rw [hconn, hheader]
      exact ⟨_, rfl⟩
  | ok bytes =>
    obtain ⟨header, hparsed⟩ :=
      MbapHeader.fromBytes_of_length (show bytes.toList.length = 7 by simp)
    have hread : x.headerRead = some header := by
      simp [Exchange.headerRead, hsend, hheader, hparsed, Except.toOption]
    have hafter : (d.received 0 bytes.toList).connection =
        some ⟨conn.received ++ bytes.toList⟩ := by
      simp [received, hconn]
    rw [receiveResponse_eq hconn hheader hparsed, hread]
    by_cases hanswers : header.Answers tid d.config.unitId
    · rw [MbapHeader.validate_of_answers hanswers]
      dsimp only
      -- only the subtraction of the unit id can fail
      have hsub : (∃ length, u16Sub b header.length 1 = .ok length) ↔
          (b = .debug → header.length ≠ 0) := by
        have hone : (1 : BitVec 16).toNat = 1 := rfl
        have hzero : header.length ≠ 0 ↔ 1 ≤ header.length.toNat := by
          rw [Nat.one_le_iff_ne_zero, not_iff_not]
          exact ⟨fun h => h ▸ rfl, fun h => BitVec.eq_of_toNat_eq h⟩
        rw [hzero, ← hone]
        exact Build.result_returns_iff
      constructor
      · rintro ⟨y, hy⟩ hb header' heq -
        cases heq
        cases hlength : u16Sub b header.length 1 with
        | error failure =>
          rw [hlength] at hy
          cases hy
        | ok length => exact hsub.mp ⟨length, hlength⟩ hb
      · intro h
        obtain ⟨length, hlength⟩ := hsub.mpr fun hb => h hb header rfl hanswers
        rw [hlength]
        dsimp only
        split
        · exact ⟨_, rfl⟩
        · rw [receivePdu_eq _ hafter (by omega)]
          cases x.pdu length.toNat with
          | error e => exact ⟨_, rfl⟩
          | ok pdu => exact ⟨_, rfl⟩
    · obtain ⟨e, he⟩ := MbapHeader.validate_of_not_answers hanswers
      rw [he]
      refine ⟨?_, fun _ => ⟨_, rfl⟩⟩
      intro _ _ header' heq hanswers'
      cases heq
      exact absurd hanswers' hanswers

theorem new_returns_iff {tid : BitVec 16} {unitId : Byte} {n : Nat} :
    (∃ header, MbapHeader.new b tid (BitVec.ofNat 16 n) unitId = .ok header) ↔
      (b = .debug → n % 2 ^ 16 ≠ 2 ^ 16 - 1) := by
  have hsum : (∃ length, u16Add b (BitVec.ofNat 16 n) 1 = .ok length) ↔
      (b = .debug → n % 2 ^ 16 ≠ 2 ^ 16 - 1) := by
    have hlt : n % 2 ^ 16 ≠ 2 ^ 16 - 1 ↔
        (BitVec.ofNat 16 n).toNat + (1 : BitVec 16).toNat < 2 ^ 16 := by
      have hone : (1 : BitVec 16).toNat = 1 := rfl
      have hmod := Nat.mod_lt n (show 0 < 2 ^ 16 by decide)
      rw [BitVec.toNat_ofNat, hone]
      omega
    rw [hlt]
    exact Build.result_returns_iff
  rw [← hsum]
  unfold MbapHeader.new
  cases u16Add b (BitVec.ofNat 16 n) 1 with
  | error failure =>
    constructor
    · rintro ⟨_, h⟩
      cases h
    · rintro ⟨_, h⟩
      cases h
  | ok length => exact ⟨fun _ => ⟨_, rfl⟩, fun _ => ⟨_, rfl⟩⟩

/-- `send_request` panics only in a debug build, at one of its two sums. -/
theorem sendRequest_returns_iff {pdu : List Byte} :
    (∃ y, d.sendRequest b pdu x = .ok y) ↔ (b = .debug → d.LengthsInRange pdu x) := by
  unfold sendRequest LengthsInRange
  cases hconn : d.connection with
  | none =>
    refine ⟨fun _ _ hsome => ?_, fun _ => ⟨_, rfl⟩⟩
    cases hsome
  | some conn =>
    -- the length field is the length of the PDU plus one, which a debug build checks
    have hsum : (∃ header, MbapHeader.new b d.nextId (BitVec.ofNat 16 pdu.length)
        d.config.unitId = .ok header) ↔ (b = .debug → pdu.length % 2 ^ 16 ≠ 2 ^ 16 - 1) :=
      new_returns_iff
    change (∃ y, (MbapHeader.new b d.nextId (BitVec.ofNat 16 pdu.length) d.config.unitId >>= _) =
      .ok y) ↔ _
    cases hnew : MbapHeader.new b d.nextId (BitVec.ofNat 16 pdu.length) d.config.unitId with
    | error failure =>
      constructor
      · rintro ⟨y, hy⟩
        cases hy
      · intro h
        obtain ⟨header, hheader⟩ := hsum.mpr fun hb => (h hb rfl).1
        rw [hnew] at hheader
        cases hheader
    | ok header =>
      have hpdu := hsum.mp ⟨header, hnew⟩
      cases hsend : x.send with
      | error e =>
        -- nothing is read where nothing could be sent
        refine ⟨fun _ hb _ => ⟨hpdu hb, ?_⟩, fun _ => ⟨_, rfl⟩⟩
        intro header' hread
        simp [Exchange.headerRead, hsend] at hread
      | ok u =>
        have hreceive : (∃ y, (d.nextTransactionId.2.sent (header.toBytes ++ pdu)).receiveResponse b
            d.nextId x = .ok y) ↔ (b = .debug → ∀ header, x.headerRead = some header →
              header.Answers d.nextId d.config.unitId → header.length ≠ 0) :=
          receiveResponse_returns_iff hconn hsend
        constructor
        · rintro ⟨y, hy⟩ hb -
          exact ⟨hpdu hb, hreceive.mp ⟨y, hy⟩ hb⟩
        · intro h
          obtain ⟨y, hy⟩ := hreceive.mpr fun hb => (h hb rfl).2
          exact ⟨y, hy⟩

end ModbusTcpDriver

end VirtualPlc.Fieldbus
