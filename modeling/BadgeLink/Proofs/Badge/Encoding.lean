import BadgeLink.Proofs.Badge.Wire
import BadgeLink.Proofs.Text.Hex

/-!
# Commands can be read back

The payload of a call names the operation and holds all of its arguments: the byte behind the kind of
the command tells the operations of a peripheral apart, and whatever has no fixed length stands
behind a byte that counts it, or at the end. The checks of the arguments keep every count below 256.

* `Call.read?` reads the call off a payload, `read_payload` that it reads back what was written.
* `frame_unambiguous`: so two operations that are sent with the same frame are the same.
-/

namespace BadgeLink

/-! ## Codes

No two kinds of command, and no two operations of one peripheral, have the same code. -/

theorem CommandKind.find_code (k : CommandKind) :
    CommandKind.all.find? (·.code == k.code) = some k := by
  cases k <;> rfl

theorem LcdOperation.find_code (op : LcdOperation) :
    LcdOperation.all.find? (·.code == op.code) = some op := by
  cases op <;> rfl

theorem LedOperation.find_code (op : LedOperation) :
    LedOperation.all.find? (·.code == op.code) = some op := by
  cases op <;> rfl

theorem I2cOperation.find_code (op : I2cOperation) :
    I2cOperation.all.find? (·.code == op.code) = some op := by
  cases op <;> rfl

theorem SpiOperation.find_code (op : SpiOperation) :
    SpiOperation.all.find? (·.code == op.code) = some op := by
  cases op <;> rfl

namespace Badge

open Link

/-- The calls that name an operation of a peripheral; a raw command names none. -/
def Call.IsOperation : Call → Prop
  | .raw .. => False
  | _ => True

/-! ## Reading -/

/-- The bytes behind the byte that counts them, and what follows these. -/
def counted? : List UInt8 → Option (List UInt8 × List UInt8)
  | [] => none
  | count :: rest =>
    if count.toNat ≤ rest.length then some (rest.take count.toNat, rest.drop count.toNat) else none

/-- The text whose characters travel as these bytes. -/
def asciiText (bytes : List UInt8) : String :=
  String.ofList (bytes.map fun b => Char.ofNat b.toNat)

def readLcd? : List UInt8 → Option Call
  | [] => none
  | code :: rest =>
    match LcdOperation.all.find? (·.code == code), rest with
    | some .clear, [] => some .lcdClear
    | some .refresh, [] => some .lcdRefresh
    | some .pixel, [x, y, value] => some (.lcdPixel x y value)
    | some .text, row :: column :: rest =>
      match counted? rest with
      | some (text, []) => some (.lcdText row column (asciiText text))
      | _ => none
    | _, _ => none

def readLed? : List UInt8 → Option Call
  | [code, led, value] =>
    match LedOperation.all.find? (·.code == code) with
    | some .set => some (.ledSet led value)
    | some .blink => some (.ledBlink led value)
    | none => none
  | _ => none

def readI2c? : List UInt8 → Option Call
  | code :: device :: rest =>
    match I2cOperation.all.find? (·.code == code), counted? rest with
    | some .read, some (register, [length]) => some (.i2cRead device register length.toNat)
    | some .write, some (register, rest) =>
      match counted? rest with
      | some (data, []) => some (.i2cWrite device register data)
      | _ => none
    | _, _ => none
  | _ => none

def readSpi? : List UInt8 → Option Call
  | [] => none
  | code :: rest =>
    match SpiOperation.all.find? (·.code == code), rest with
    | some .config, [high, low, mode] =>
      some (.spiConfig (UInt16.ofNat (256 * high.toNat + low.toNat)) mode)
    | some .transfer, rest =>
      match counted? rest with
      | some (data, []) => some (.spiTransfer data)
      | _ => none
    | _, _ => none

/-- The operation that a payload asks for, with its arguments. -/
def Call.read? : List UInt8 → Option Call
  | [] => none
  | code :: rest =>
    match CommandKind.all.find? (·.code == code), rest with
    | some .lcd, rest => readLcd? rest
    | some .led, rest => readLed? rest
    | some .buttons, [] => some .buttons
    | some .uart, rest => some (.uartTransfer rest)
    | some .i2c, rest => readI2c? rest
    | some .spi, rest => readSpi? rest
    | _, _ => none

/-! ## Reading back -/

theorem counted_append {data : List UInt8} (h : data.length ≤ 255) (rest : List UInt8) :
    counted? (UInt8.ofNat data.length :: (data ++ rest)) = some (data, rest) := by
  simp [counted?, Frame.toNat_count h]

theorem counted_all {data : List UInt8} (h : data.length ≤ 255) :
    counted? (UInt8.ofNat data.length :: data) = some (data, []) := by
  simpa using counted_append h []

theorem asciiText_asciiBytes {text : String} (h : ∀ c ∈ text.toList, c.toNat < 128) :
    asciiText (asciiBytes text.toList) = text := by
  rw [asciiText, map_ofNat_asciiBytes h, String.ofList_toList]

/-- A half-word is the value of its two bytes. -/
theorem ofNat_bytes (w : UInt16) :
    UInt16.ofNat (256 * (UInt8.ofNat (w.toNat / 256)).toNat + (UInt8.ofNat w.toNat).toNat) = w := by
  have hlt : w.toNat < 65536 := w.toNat_lt
  apply UInt16.toNat_inj.1
  simp only [UInt8.toNat_ofNat', UInt16.toNat_ofNat']
  omega

/-- What a requirement lets pass is what follows it, and it holds then. -/
theorem Call.require_bind_eq_ok {α : Type} {condition : Bool} {why : Refusal}
    {rest : Except Refusal α} {a : α} :
    (require condition why >>= fun _ => rest) = .ok a ↔ condition = true ∧ rest = .ok a := by
  cases condition with
  | true =>
    show rest = .ok a ↔ _
    simp
  | false =>
    show Except.error why = .ok a ↔ _
    simp

/-- An operation with its arguments is read back from the payload that was written for it. -/
theorem Call.read_payload {c : Call} (hc : c.IsOperation) {arguments : List UInt8}
    (h : c.arguments = .ok arguments) : read? (c.kind.code :: arguments) = some c := by
  cases c with
  | raw => exact hc.elim
  | lcdClear | lcdRefresh | buttons | uartTransfer =>
    cases h
    rfl
  | lcdPixel x y value =>
    obtain ⟨-, ⟨rfl⟩⟩ := require_bind_eq_ok.1 h
    rfl
  | lcdText row column text =>
    obtain ⟨hascii, h⟩ := require_bind_eq_ok.1 h
    obtain ⟨hlong, ⟨rfl⟩⟩ := require_bind_eq_ok.1 h
    have hascii : ∀ c ∈ text.toList, c.toNat < 128 := by simpa using hascii
    have hlength : (asciiBytes text.toList).length = text.toList.length := List.length_map ..
    have hlong : (asciiBytes text.toList).length ≤ 255 := by
      have hlong : text.toList.length ≤ 250 := of_decide_eq_true hlong
      omega
    have hcounted := counted_all hlong
    rw [hlength] at hcounted
    simp only [kind, read?, CommandKind.find_code, readLcd?, LcdOperation.find_code, List.cons_append,
      List.nil_append, hcounted, asciiText_asciiBytes hascii]
  | ledSet led value =>
    obtain ⟨-, ⟨rfl⟩⟩ := require_bind_eq_ok.1 h
    rfl
  | ledBlink led period =>
    obtain ⟨-, ⟨rfl⟩⟩ := require_bind_eq_ok.1 h
    rfl
  | i2cRead device register length =>
    obtain ⟨hregister, h⟩ := require_bind_eq_ok.1 h
    obtain ⟨hlength, ⟨rfl⟩⟩ := require_bind_eq_ok.1 h
    have hregister : register.length ≤ 4 := of_decide_eq_true hregister
    have hlength : length ≤ 255 := of_decide_eq_true hlength
    have hcounted := counted_append (show register.length ≤ 255 by omega) [UInt8.ofNat length]
    have hvalue : (UInt8.ofNat length).toNat = length := by
      rw [UInt8.toNat_ofNat']
      omega
    simp only [kind, read?, CommandKind.find_code, readI2c?, I2cOperation.find_code, List.cons_append,
      List.nil_append, hcounted, hvalue]
  | i2cWrite device register data =>
    obtain ⟨hregister, h⟩ := require_bind_eq_ok.1 h
    obtain ⟨hdata, ⟨rfl⟩⟩ := require_bind_eq_ok.1 h
    have hregister : register.length ≤ 4 := of_decide_eq_true hregister
    have hdata : data.length ≤ 255 := of_decide_eq_true hdata
    have hcounted := counted_append (show register.length ≤ 255 by omega)
      (UInt8.ofNat data.length :: data)
    simp only [kind, read?, CommandKind.find_code, readI2c?, I2cOperation.find_code, List.cons_append,
      List.nil_append, hcounted, counted_all hdata]
  | spiConfig clock mode =>
    obtain ⟨-, h⟩ := require_bind_eq_ok.1 h
    obtain ⟨-, ⟨rfl⟩⟩ := require_bind_eq_ok.1 h
    simp only [kind, read?, CommandKind.find_code, readSpi?, SpiOperation.find_code, ofNat_bytes]
  | spiTransfer data =>
    obtain ⟨hdata, ⟨rfl⟩⟩ := require_bind_eq_ok.1 h
    have hdata : data.length ≤ 255 := of_decide_eq_true hdata
    simp only [kind, read?, CommandKind.find_code, readSpi?, SpiOperation.find_code, List.cons_append,
      List.nil_append, counted_all hdata]

/-! ## Frames -/

/-- An operation is read back from the payload in its frame. -/
theorem Call.read_of_frame {c : Call} {payload frame : List UInt8} (hc : c.IsOperation)
    (h : c.frame = .ok frame) (hframe : Frame.Frames payload frame) : read? payload = some c := by
  obtain ⟨arguments, harguments, hwritten⟩ := frame_eq_ok_iff.1 h
  rw [hframe.unique hwritten]
  exact read_payload hc harguments

/-- Two operations that are sent with the same frame are the same operation with the same arguments,
for every operation that is sent is read back from the payload in its frame. The frame of a call is
what the port accepts of it: at most a first part, and all of it if the call succeeds. -/
theorem frame_unambiguous :
    (∀ (c c' : Call) (frame : List UInt8), c.IsOperation → c'.IsOperation →
      c.frame = .ok frame → c'.frame = .ok frame → c = c') ∧
    (∀ (c : Call) (payload frame : List UInt8), c.IsOperation → c.frame = .ok frame →
      Frame.Frames payload frame → Call.read? payload = some c) ∧
    ∀ (b : Badge) (c : Call) (frame : List UInt8), c.frame = .ok frame →
      ∀ es o, (b.call c).Plays es o →
        accepted es <+: frame ∧ ∀ reply, o = .ok reply → accepted es = frame := by
  refine ⟨?_, fun c payload frame => Call.read_of_frame, ?_⟩
  · intro c c' frame hc hc' h h'
    obtain ⟨_, -, hframe⟩ := Call.frame_eq_ok_iff.1 h
    exact Option.some.inj ((Call.read_of_frame hc h hframe).symm.trans
      (Call.read_of_frame hc' h' hframe))
  · intro b c frame h es o hplays
    have hsent := b.ensures_call h es o hplays
    rw [accepted_eq]
    cases o with
    | ok reply =>
      obtain ⟨data, hanswered⟩ := hsent
      rw [hanswered.sentBytes_eq]
      exact ⟨List.prefix_refl frame, fun _ _ => rfl⟩
    | error e => exact ⟨hsent, nofun⟩
    | crash crash => exact ⟨hsent, nofun⟩

/-- Three bytes that are written to a register with an address of two bytes: the call is read back,
and no other operation is sent with its frame. -/
theorem write_read_back :
    (Call.i2cWrite 0x50 [0x12, 0x34] [7, 8, 9]).frame =
      .ok [10, 2, 1, 0x50, 2, 0x12, 0x34, 3, 7, 8, 9, 0x72] ∧
    Call.read? [2, 1, 0x50, 2, 0x12, 0x34, 3, 7, 8, 9] =
      some (.i2cWrite 0x50 [0x12, 0x34] [7, 8, 9]) ∧
    ∀ c : Call, c.IsOperation → c.frame = .ok [10, 2, 1, 0x50, 2, 0x12, 0x34, 3, 7, 8, 9, 0x72] →
      c = .i2cWrite 0x50 [0x12, 0x34] [7, 8, 9] := by
  obtain ⟨hinj, hread, -⟩ := frame_unambiguous
  have hframe : (Call.i2cWrite 0x50 [0x12, 0x34] [7, 8, 9]).frame =
      .ok [10, 2, 1, 0x50, 2, 0x12, 0x34, 3, 7, 8, 9, 0x72] := rfl
  refine ⟨hframe, hread _ _ _ trivial hframe (Frame.encode_eq_ok_iff_frames.1 rfl), ?_⟩
  intro c hc h
  exact hinj c _ _ hc trivial h hframe

end Badge

end BadgeLink
