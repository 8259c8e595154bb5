import PrivateDatagram.Script.EvalMachine

/-!
# Encodings

The tests on the form of signatures, public keys and pushes that the
verification flags switch on.
-/

namespace PrivateDatagram.Script.SignatureEncoding

open Wire.Script Instructions EvalMachine

/-! ## Flags -/

def verifyP2SH : UInt32 := 1
def verifyStrictEnc : UInt32 := 2
def verifyDerSig : UInt32 := 4
def verifyLowS : UInt32 := 8
def verifyNullDummy : UInt32 := 16
def verifySigPushOnly : UInt32 := 32
def verifyMinimalData : UInt32 := 64
def verifyDiscourageUpgradableNops : UInt32 := 128

def hasFlag (flags flag : UInt32) : Bool := flags &&& flag ≠ 0

/-! ## Elements of a signature -/

/-- Compare byte by byte, the highest first. -/
def compareBytes : Valtype → Valtype → Int
  | byte1 :: c1, byte2 :: c2 =>
      if byte1 > byte2 then 1
      else if byte2 > byte1 then -1
      else compareBytes c1 c2
  | _, _ => 0

def compareBigEndian (c1 c2 : Valtype) : Int :=
  if (c1.take (c1.length - c2.length)).any (· ≠ 0) then 1
  else if (c2.take (c2.length - c1.length)).any (· ≠ 0) then -1
  else
    compareBytes (c1.drop (c1.length - c2.length))
      (c2.drop (c2.length - c1.length))

/-- The order of the generator of secp256k1, less one. -/
def vchMaxModOrder : Valtype := [
  0xFF, 0xFF, 0xFF, 0xFF, 0xFF, 0xFF, 0xFF, 0xFF,
  0xFF, 0xFF, 0xFF, 0xFF, 0xFF, 0xFF, 0xFF, 0xFE,
  0xBA, 0xAE, 0xDC, 0xE6, 0xAF, 0x48, 0xA0, 0x3B,
  0xBF, 0xD2, 0x5E, 0x8C, 0xD0, 0x36, 0x41, 0x40]

/-- Half of the order of the generator of secp256k1, less one. -/
def vchMaxModHalfOrder : Valtype := [
  0x7F, 0xFF, 0xFF, 0xFF, 0xFF, 0xFF, 0xFF, 0xFF,
  0xFF, 0xFF, 0xFF, 0xFF, 0xFF, 0xFF, 0xFF, 0xFF,
  0x5D, 0x57, 0x6E, 0x73, 0x57, 0xA4, 0x50, 0x1D,
  0xDF, 0xE9, 0x2F, 0x46, 0x68, 0x1B, 0x20, 0xA0]

def checkSignatureElement (vch : Valtype) (half : Bool) : Bool :=
  compareBigEndian vch [] > 0 &&
    compareBigEndian vch
      (if half then vchMaxModHalfOrder else vchMaxModOrder) ≤ 0

/-! ## Signatures -/

def isValidSignatureEncoding (sig : Valtype) : Bool :=
  let byte := fun i => sig.getD i 0
  if sig.length < 9 then false
  else if sig.length > 73 then false
  else if byte 0 ≠ 0x30 then false
  else if (byte 1).toNat ≠ sig.length - 3 then false
  else
    let lenR := (byte 3).toNat
    if 5 + lenR ≥ sig.length then false
    else
      let lenS := (byte (5 + lenR)).toNat
      if lenR + lenS + 7 ≠ sig.length then false
      else if byte 2 ≠ 0x02 then false
      else if lenR = 0 then false
      else if byte 4 &&& 0x80 ≠ 0 then false
      else if lenR > 1 ∧ byte 4 = 0 ∧ byte 5 &&& 0x80 = 0 then false
      else if byte (lenR + 4) ≠ 0x02 then false
      else if lenS = 0 then false
      else if byte (lenR + 6) &&& 0x80 ≠ 0 then false
      else if lenS > 1 ∧ byte (lenR + 6) = 0 ∧
          byte (lenR + 7) &&& 0x80 = 0 then false
      else true

/-- `IsLowDERSignature`, with the error it sets. -/
def isLowDERSignature (vchSig : Valtype) : Except ScriptError Unit := do
  if !isValidSignatureEncoding vchSig then throw .sigDer
  let nLenR := (vchSig.getD 3 0).toNat
  let nLenS := (vchSig.getD (5 + nLenR) 0).toNat
  let s := (vchSig.drop (6 + nLenR)).take nLenS
  if !checkSignatureElement s true then throw .sigHighS

/-- The hash type without `SIGHASH_ANYONECANPAY` is one of the three. -/
def isDefinedHashtypeSignature (vchSig : Valtype) : Bool :=
  if vchSig.length = 0 then false
  else
    let nHashType := vchSig.getLastD 0 &&& 0x7f
    1 ≤ nHashType && nHashType ≤ 3

def checkSignatureEncoding (vchSig : Valtype) (flags : UInt32) :
    Except ScriptError Unit :=
  if vchSig.length = 0 then pure ()
  else if hasFlag flags (verifyDerSig ||| verifyLowS ||| verifyStrictEnc) &&
      !isValidSignatureEncoding vchSig then
    throw .sigDer
  else do
    if hasFlag flags verifyLowS then isLowDERSignature vchSig
    if hasFlag flags verifyStrictEnc && !isDefinedHashtypeSignature vchSig then
      throw .sigHashType

/-! ## Public keys and pushes -/

def isCompressedOrUncompressedPubKey (vchPubKey : Valtype) : Bool :=
  let first := vchPubKey.getD 0 0
  if vchPubKey.length < 33 then false
  else if first = 0x04 then vchPubKey.length = 65
  else if first = 0x02 ∨ first = 0x03 then vchPubKey.length = 33
  else false

def checkPubKeyEncoding (vchPubKey : Valtype) (flags : UInt32) :
    Except ScriptError Unit :=
  if hasFlag flags verifyStrictEnc &&
      !isCompressedOrUncompressedPubKey vchPubKey then
    throw .pubkeyType
  else pure ()

def checkMinimalPush (data : Valtype) (opcode : UInt8) : Bool :=
  let first := data.getD 0 0
  if data.length = 0 then opcode = op0
  else if data.length = 1 ∧ 1 ≤ first ∧ first ≤ 16 then
    opcode = op1 + (first - 1)
  else if data.length = 1 ∧ first = 0x81 then opcode = op1Negate
  else if data.length ≤ 75 then opcode.toNat = data.length
  else if data.length ≤ 255 then opcode = opPushData1
  else if data.length ≤ 65535 then opcode = opPushData2
  else true

end PrivateDatagram.Script.SignatureEncoding
