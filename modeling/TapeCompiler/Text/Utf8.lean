import TapeCompiler.Text.Quoted

namespace TapeCompiler.Text

inductive Utf8Defect where
  | startByte
  | continuation
  | unfinished
  deriving DecidableEq, Repr

structure Utf8Fault where
  position : Nat
  bytes : List Nat
  defect : Utf8Defect
  deriving DecidableEq, Repr

def Utf8Defect.reason : Utf8Defect → String
  | .startByte => "invalid start byte"
  | .continuation => "invalid continuation byte"
  | .unfinished => "unexpected end of data"

def Utf8Fault.message (fault : Utf8Fault) : String :=
  let place :=
    match fault.bytes with
    | [byte] =>
        "byte 0x" ++ String.ofList (hexadecimal 2 byte) ++ " in position " ++ toString fault.position
    | bytes =>
        "bytes in position " ++ toString fault.position ++ "-"
          ++ toString (fault.position + bytes.length - 1)
  "'utf-8' codec can't decode " ++ place ++ ": " ++ fault.defect.reason

structure Utf8Lead where
  following : Nat
  low : Nat
  high : Nat
  bits : Nat
  deriving DecidableEq, Repr

def utf8Lead? (b : Nat) : Option Utf8Lead :=
  if b < 0xc2 then none
  else if b < 0xe0 then some ⟨1, 0x80, 0xbf, b - 0xc0⟩
  else if b < 0xf0 then
    some ⟨2, if b = 0xe0 then 0xa0 else 0x80, if b = 0xed then 0x9f else 0xbf, b - 0xe0⟩
  else if b < 0xf5 then
    some ⟨3, if b = 0xf0 then 0x90 else 0x80, if b = 0xf4 then 0x8f else 0xbf, b - 0xf0⟩
  else none

/-- Reads `following` more bytes of a character, whose bits so far are `bits`. The next byte lies
between `low` and `high`, later ones are plain continuation bytes. On failure the bytes that were
read are returned with the defect. -/
def utf8Tail (low high bits : Nat) : Nat → List Nat → Except (List Nat × Utf8Defect) Nat
  | 0, _ => .ok bits
  | _ + 1, [] => .error ([], .unfinished)
  | following + 1, b :: rest =>
      if low ≤ b ∧ b ≤ high then
        match utf8Tail 0x80 0xbf (64 * bits + (b - 0x80)) following rest with
        | .ok n => .ok n
        | .error (seen, defect) => .error (b :: seen, defect)
      else .error ([], .continuation)

def decodeUtf8From (position skip : Nat) : List Nat → Except Utf8Fault (List Char)
  | [] => .ok []
  | b :: rest =>
      match skip with
      | skip + 1 => decodeUtf8From (position + 1) skip rest
      | 0 =>
          if b < 0x80 then
            (decodeUtf8From (position + 1) 0 rest).map (Char.ofNat b :: ·)
          else
            match utf8Lead? b with
            | none => .error ⟨position, [b], .startByte⟩
            | some lead =>
                match utf8Tail lead.low lead.high lead.bits lead.following rest with
                | .error (seen, defect) => .error ⟨position, b :: seen, defect⟩
                | .ok n =>
                    (decodeUtf8From (position + 1) lead.following rest).map (Char.ofNat n :: ·)

def decodeUtf8 (bytes : List Nat) : Except Utf8Fault (List Char) := decodeUtf8From 0 0 bytes

end TapeCompiler.Text
