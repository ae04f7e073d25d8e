import InMemoryFuzzing.RemoteControl.Sender

/-!
# What `SendPacket` puts on the wire

The length of the data is cut to sixteen bits without a check, the server reads it as a signed
number, and it can hold 10000 bytes of a packet. `SendPacket` keeps to what the server can take
for the lengths that the header comment of `remote_control.c` allows, and for no others
(`send_parsable_iff`).
-/

namespace InMemoryFuzzing.RemoteControl

open Base Platform

/-- Nothing is written, or a frame whose length field the server reads as the length of the data,
and that fits into its buffer. -/
def SendsParsable (receiver : String) (data : List UInt8) : Prop :=
  ∀ bytes, sendPacketClient receiver data = .ok bytes →
    (∃ b0 b1, bytes[8]? = some b0 ∧ bytes[9]? = some b1 ∧ CLib.readInt16T b0 b1 = data.length) ∧
    bytes.length ≤ 10000

theorem sendPacketClient_ok {receiver : String} (h : receiver.toList.length = 4)
    (data : List UInt8) :
    sendPacketClient receiver data = .ok (magic ++ DotNet.asciiGetBytes receiver ++
      toLE 2 (data.length % 2 ^ 16) ++ data) := by
  have hmagic : DotNet.asciiGetBytes "FUZZ" = magic := rfl
  simp [sendPacketClient, h, hmagic, DotNet.getBytesUInt16]

theorem sendPacketClient_raises {receiver : String} (h : receiver.toList.length ≠ 4)
    (data : List UInt8) :
    sendPacketClient receiver data = .error (.argument "4 bytes receiver expected") := by
  simp [sendPacketClient, h]

theorem sent_length {receiver : String} (h : receiver.toList.length = 4) (data : List UInt8) :
    (magic ++ DotNet.asciiGetBytes receiver ++ toLE 2 (data.length % 2 ^ 16) ++ data).length =
      10 + data.length := by
  simp [h]
  omega

/-- What the server reads out of the length field. -/
theorem lengthField_read {receiver : String} (h : receiver.toList.length = 4) (data : List UInt8) :
    ∃ b0 b1, (magic ++ DotNet.asciiGetBytes receiver ++ toLE 2 (data.length % 2 ^ 16) ++ data)[8]? =
        some b0 ∧
      (magic ++ DotNet.asciiGetBytes receiver ++ toLE 2 (data.length % 2 ^ 16) ++ data)[9]? =
        some b1 ∧
      CLib.readInt16T b0 b1 = CLib.int16 data.length := by
  have hfront : (magic ++ DotNet.asciiGetBytes receiver).length = 8 := by simp [h]
  generalize hlength : data.length = n
  refine ⟨UInt8.ofNat (n % 2 ^ 16), UInt8.ofNat (n % 2 ^ 16 / 256), ?_, ?_, ?_⟩
  · rw [List.append_assoc, List.getElem?_append_right (by omega), hfront]
    rfl
  · rw [List.append_assoc, List.getElem?_append_right (by omega), hfront]
    rfl
  · have hvalue : fromLE [UInt8.ofNat (n % 2 ^ 16), UInt8.ofNat (n % 2 ^ 16 / 256)] = n % 2 ^ 16 := by
      show fromLE (toLE 2 (n % 2 ^ 16)) = _
      rw [fromLE_toLE]
      omega
    rw [CLib.readInt16T_eq, hvalue, CLib.int16, CLib.int16, Int.bmod_def, Int.bmod_def]
    push_cast
    rw [Int.emod_emod_of_dvd _ (by norm_num)]

/-- The field holds lengths below 32768. -/
theorem int16_length_iff (n : Nat) : CLib.int16 n = n ↔ n ≤ 32767 := by
  rw [CLib.int16, Int.bmod_def]
  split <;> omega

/-- If and only if the receiver is refused, or the data have at most 10K-10 bytes. -/
theorem send_parsable_iff (receiver : String) (data : List UInt8) :
    SendsParsable receiver data ↔ receiver.toList.length ≠ 4 ∨ data.length ≤ 9990 := by
  by_cases hreceiver : receiver.toList.length = 4
  · have hok := sendPacketClient_ok hreceiver data
    have htotal := sent_length hreceiver data
    constructor
    · intro h
      have hfits := (h _ hok).2
      right
      omega
    · rintro (hne | hle) bytes hbytes
      · exact absurd hreceiver hne
      · rw [hok] at hbytes
        cases hbytes
        obtain ⟨b0, b1, h0, h1, hread⟩ := lengthField_read hreceiver data
        refine ⟨⟨b0, b1, h0, h1, hread.trans ?_⟩, by omega⟩
        exact (int16_length_iff data.length).mpr (by omega)
  · refine iff_of_true (fun bytes hbytes => ?_) (.inl hreceiver)
    rw [sendPacketClient_raises hreceiver] at hbytes
    cases hbytes

/-- A message to echo that is one character too long. -/
theorem long_echo_not_parsable :
    let message := String.ofList (List.replicate 9991 'a')
    ¬SendsParsable "ECHO" (DotNet.asciiGetBytes message) := by
  intro message h
  have hlength : (DotNet.asciiGetBytes message).length = 9991 := by
    rw [DotNet.asciiGetBytes_length, String.toList_ofList, List.length_replicate]
  have hreceiver : "ECHO".toList.length = 4 := rfl
  have hfits := (h _ (sendPacketClient_ok hreceiver _)).2
  rw [sent_length hreceiver, hlength] at hfits
  omega

end InMemoryFuzzing.RemoteControl
