import TinyProcessors.Lib.Bits

namespace TinyProcessors

inductive FpState
  | idle | decode | align | combine | normalize | denormalize | round | divide | sqrt | intShift
  | intRound | response
  deriving DecidableEq

structure Fp32 where
  state : FpState
  operation : BitVec 5
  mode : BitVec 3
  x : Word
  y : Word
  z : Word
  magnitude : BitVec 80
  addend : BitVec 80
  signResult : Bool
  signAddend : Bool
  tinyAfterRounding : Bool
  alignShift : BitVec 7
  exponent : BitVec 12
  iteration : BitVec 6
  quotient : BitVec 26
  divRemainder : BitVec 27
  divisor : BitVec 24
  radicand : BitVec 54
  sqrtRemainder : BitVec 54
  root : BitVec 27
  result : Word
  flags : BitVec 5
  error : Bool

structure FpPort where
  reset : Bool
  reqValid : Bool
  op : BitVec 5
  rm : BitVec 3
  a : Word
  b : Word
  c : Word
  respReady : Bool

namespace Fp32

abbrev opAdd : BitVec 5 := 0
abbrev opSub : BitVec 5 := 1
abbrev opMul : BitVec 5 := 2
abbrev opFmadd : BitVec 5 := 3
abbrev opFmsub : BitVec 5 := 4
abbrev opFnmsub : BitVec 5 := 5
abbrev opFnmadd : BitVec 5 := 6
abbrev opDiv : BitVec 5 := 7
abbrev opSqrt : BitVec 5 := 8
abbrev opI32ToF32 : BitVec 5 := 9
abbrev opU32ToF32 : BitVec 5 := 10
abbrev opF32ToI32 : BitVec 5 := 11
abbrev opF32ToU32 : BitVec 5 := 12
abbrev opEq : BitVec 5 := 13
abbrev opLt : BitVec 5 := 14
abbrev opLe : BitVec 5 := 15
abbrev opMin : BitVec 5 := 16
abbrev opMax : BitVec 5 := 17

abbrev rmRne : BitVec 3 := 0
abbrev rmRtz : BitVec 3 := 1
abbrev rmRdn : BitVec 3 := 2
abbrev rmRup : BitVec 3 := 3
abbrev rmRmm : BitVec 3 := 4

abbrev flagNx : BitVec 5 := 0x1
abbrev flagUf : BitVec 5 := 0x2
abbrev flagOf : BitVec 5 := 0x4
abbrev flagDz : BitVec 5 := 0x8
abbrev flagNv : BitVec 5 := 0x10

abbrev nan : Word := 0x7fc00000

def isNan (v : Word) : Bool := v.extractLsb' 23 8 = 0xff && v.extractLsb' 0 23 ≠ 0

def isSnan (v : Word) : Bool := isNan v && !v.getLsbD 22

def isInf (v : Word) : Bool := v.extractLsb' 0 31 = 0x7f800000

def isZero (v : Word) : Bool := v.extractLsb' 0 31 = 0

def significand (v : Word) : BitVec 24 :=
  BitVec.ofBool (v.extractLsb' 23 8 ≠ 0) ++ v.extractLsb' 0 23

def effectiveExp (v : Word) : BitVec 10 :=
  if v.extractLsb' 23 8 = 0 then 1 else (v.extractLsb' 23 8).setWidth 10

/-- A round of the loop of `unpack`. -/
def shiftUp (u : BitVec 12 × BitVec 24) : BitVec 12 × BitVec 24 :=
  if !u.2.getLsbD 23 && u.2 ≠ 0 then (u.1 - 1, u.2 <<< 1) else u

/-- The unbiased exponent and the significand of a finite number, normalized. -/
def unpack (v : Word) : BitVec 12 × BitVec 24 :=
  shiftUp^[23] ((effectiveExp v).setWidth 12 - 127, significand v)

def increment (rounding : BitVec 3) (negative odd guardBit sticky : Bool) : Bool :=
  if rounding = rmRne then guardBit && (sticky || odd)
  else if rounding = rmRtz then false
  else if rounding = rmRdn then negative && (guardBit || sticky)
  else if rounding = rmRup then !negative && (guardBit || sticky)
  else if rounding = rmRmm then guardBit
  else false

/-- A right shift with every bit that is shifted out ORed into bit 0. -/
def jamRight (v : BitVec 80) (amount : BitVec 7) : BitVec 80 :=
  if 80 ≤ amount then (BitVec.ofBool (v ≠ 0)).setWidth 80
  else v >>> amount |||
    (BitVec.ofBool (v &&& ~~~(BitVec.allOnes 80 <<< amount) ≠ 0)).setWidth 80

def leadingZeros (v : BitVec 80) : BitVec 7 :=
  (List.range 80).foldl (fun zeros i => if v.getLsbD i then 79 - BitVec.ofNat 7 i else zeros) 80

def clampShift (distance : BitVec 13) : BitVec 7 :=
  if distance.slt 0 then 0
  else if (80 : BitVec 13).slt distance then 80
  else distance.extractLsb' 0 7

def finish (s : Fp32) (value : Word) (exceptions : BitVec 5) (badRequest : Bool) : Fp32 :=
  { s with result := value, flags := exceptions, error := badRequest, state := .response }

section Wires

variable (s : Fp32)

def expX : BitVec 12 := (unpack s.x).1

def expY : BitVec 12 := (unpack s.y).1

def expZ : BitVec 12 := (unpack s.z).1

def sigX : BitVec 24 := (unpack s.x).2

def sigY : BitVec 24 := (unpack s.y).2

def sigZ : BitVec 24 := (unpack s.z).2

def product : BitVec 48 := s.sigX.setWidth 48 * s.sigY.setWidth 48

def productSign : Bool :=
  s.x.msb ^^ s.y.msb ^^ (s.operation = opFnmsub || s.operation = opFnmadd)

def thirdSign : Bool := s.z.msb ^^ (s.operation = opFmsub || s.operation = opFnmadd)

def secondSign : Bool := s.y.msb ^^ s.operation = opSub

def fused : Bool := opFmadd ≤ s.operation && s.operation ≤ opFnmadd

def isAdd : Bool := s.operation = opAdd || s.operation = opSub

def lhsMag : BitVec 48 :=
  if s.isAdd then s.sigX ++ 0#24
  else if s.product.getLsbD 47 then s.product else s.product <<< 1

def lhsExp : BitVec 12 :=
  if s.isAdd then s.expX else s.expX + s.expY + (if s.product.getLsbD 47 then 1 else 0)

def rhsMag : BitVec 48 :=
  if s.isAdd then s.sigY ++ 0#24 else if s.fused then s.sigZ ++ 0#24 else 0

def rhsExp : BitVec 12 := if s.isAdd then s.expY else if s.fused then s.expZ else s.lhsExp

def lhsLeads : Bool := s.rhsMag = 0 || (s.lhsMag ≠ 0 && s.rhsExp.sle s.lhsExp)

def expGap : BitVec 13 := s.lhsExp.signExtend 13 - s.rhsExp.signExtend 13

def loadOperands (lhsSign rhsSign : Bool) : Fp32 :=
  { s with
    magnitude := 0#1 ++ (if s.lhsLeads then s.rhsMag else s.lhsMag) ++ 0#31
    addend := 0#1 ++ (if s.lhsLeads then s.lhsMag else s.rhsMag) ++ 0#31
    signResult := if s.lhsLeads then rhsSign else lhsSign
    signAddend := if s.lhsLeads then lhsSign else rhsSign
    alignShift := clampShift (if s.lhsLeads then s.expGap else -s.expGap)
    exponent := (if s.lhsLeads then s.lhsExp else s.rhsExp) + 1
    state := .align }

def eqXy : Bool := s.x = s.y || (isZero s.x && isZero s.y)

def ltXy : Bool :=
  !s.eqXy && (if s.x.msb ≠ s.y.msb then s.x.msb
    else if s.x.msb then decide (s.y.extractLsb' 0 31 < s.x.extractLsb' 0 31)
    else decide (s.x.extractLsb' 0 31 < s.y.extractLsb' 0 31))

def discarded : Bool := s.magnitude.extractLsb' 0 56 ≠ 0

def roundUp : Bool :=
  increment s.mode s.signResult (s.magnitude.getLsbD 56) (s.magnitude.getLsbD 55)
    (s.magnitude.extractLsb' 0 55 ≠ 0)

def rounded : BitVec 25 :=
  (s.magnitude.extractLsb' 56 24).setWidth 25 + (BitVec.ofBool s.roundUp).setWidth 25

def finalExponent : BitVec 12 := s.exponent + (if s.rounded.getLsbD 24 then 1 else 0)

def finalSignificand : BitVec 24 :=
  if s.rounded.getLsbD 24 then s.rounded.extractLsb' 1 24 else s.rounded.extractLsb' 0 24

def packedExponent : BitVec 8 :=
  if s.finalSignificand.getLsbD 23 then (s.finalExponent + 127).extractLsb' 0 8 else 0

def overflowInf : Bool :=
  s.mode = rmRne || s.mode = rmRmm || (s.mode = rmRdn && s.signResult) ||
    (s.mode = rmRup && !s.signResult)

def integerDiscarded : Bool := s.magnitude.extractLsb' 0 48 ≠ 0

def integerUp : Bool :=
  increment s.mode s.signResult (s.magnitude.getLsbD 48) (s.magnitude.getLsbD 47)
    (s.magnitude.extractLsb' 0 47 ≠ 0)

def integerRounded : BitVec 33 :=
  (s.magnitude.extractLsb' 48 32).setWidth 33 + (BitVec.ofBool s.integerUp).setWidth 33

def integerInvalid : Bool :=
  if s.operation = opF32ToU32 then
    s.integerRounded.getLsbD 32 || (s.signResult && s.integerRounded ≠ 0)
  else (if s.signResult then 0x080000000 else 0x07fffffff) < s.integerRounded

def integerLimit : Word :=
  if s.operation = opF32ToU32 then if s.signResult then 0 else 0xffffffff
  else if s.signResult then 0x80000000 else 0x7fffffff

def divBit : Bool := s.divisor.setWidth 27 ≤ s.divRemainder

def divDifference : BitVec 27 :=
  if s.divBit then s.divRemainder - s.divisor.setWidth 27 else s.divRemainder

def nextQuotient : BitVec 27 := s.quotient ++ BitVec.ofBool s.divBit

def sqrtStep : BitVec 56 := s.sqrtRemainder ++ s.radicand.extractLsb' 52 2

def sqrtTrial : BitVec 56 := 0#27 ++ s.root ++ 1#2

def sqrtBit : Bool := s.sqrtTrial ≤ s.sqrtStep

def sqrtDifference : BitVec 56 := if s.sqrtBit then s.sqrtStep - s.sqrtTrial else s.sqrtStep

def nextRoot : BitVec 27 := s.root.extractLsb' 0 26 ++ BitVec.ofBool s.sqrtBit

def jamTarget : BitVec 13 := if s.state = .denormalize then -126 else 31

def jamDistance : BitVec 13 := s.jamTarget - s.exponent.signExtend 13

def jamAmount : BitVec 7 := if s.state = .align then s.alignShift else clampShift s.jamDistance

def magnitudeJammed : BitVec 80 := jamRight s.magnitude s.jamAmount

def normalizeShift : BitVec 7 := leadingZeros s.magnitude

end Wires

section Cycles

variable (s : Fp32)

def reset : Fp32 :=
  { state := .idle, operation := opAdd, mode := 0, x := 0, y := 0, z := 0, magnitude := 0
    addend := 0, signResult := false, signAddend := false, tinyAfterRounding := false
    alignShift := 0, exponent := 0, iteration := 0, quotient := 0, divRemainder := 0, divisor := 0
    radicand := 0, sqrtRemainder := 0, root := 0, result := 0, flags := 0, error := false }

def infinity (sign : Bool) : Word := BitVec.ofBool sign ++ 0xff#8 ++ 0#23

def zero (sign : Bool) : Word := BitVec.ofBool sign ++ 0#31

def nanFlags (invalid : Bool) : BitVec 5 := BitVec.ofBool invalid ++ 0#4

def decodeAdd : Fp32 :=
  if isNan s.x || isNan s.y then s.finish nan (nanFlags (isSnan s.x || isSnan s.y)) false
  else if isInf s.x && isInf s.y && s.x.msb ≠ s.secondSign then s.finish nan flagNv false
  else if isInf s.x || isInf s.y then
    s.finish (infinity (if isInf s.x then s.x.msb else s.secondSign)) 0 false
  else s.loadOperands s.x.msb s.secondSign

def decodeMul : Fp32 :=
  if (isZero s.x && isInf s.y) || (isInf s.x && isZero s.y) then s.finish nan flagNv false
  else if isNan s.x || isNan s.y || (s.fused && isNan s.z) then
    s.finish nan (nanFlags (isSnan s.x || isSnan s.y || (s.fused && isSnan s.z))) false
  else if (isInf s.x || isInf s.y) && s.fused && isInf s.z && s.productSign ≠ s.thirdSign then
    s.finish nan flagNv false
  else if isInf s.x || isInf s.y || (s.fused && isInf s.z) then
    s.finish (infinity (if isInf s.x || isInf s.y then s.productSign else s.thirdSign)) 0 false
  else s.loadOperands s.productSign (if s.fused then s.thirdSign else s.productSign)

def decodeDiv : Fp32 :=
  let sign := s.x.msb ^^ s.y.msb
  let s := { s with signResult := sign }
  if isNan s.x || isNan s.y then s.finish nan (nanFlags (isSnan s.x || isSnan s.y)) false
  else if (isZero s.x && isZero s.y) || (isInf s.x && isInf s.y) then s.finish nan flagNv false
  else if isInf s.x then s.finish (infinity sign) 0 false
  else if isZero s.y then s.finish (infinity sign) flagDz false
  else if isZero s.x || isInf s.y then s.finish (zero sign) 0 false
  else
    { s with
      divRemainder := s.sigX.setWidth 27
      divisor := s.sigY
      quotient := 0
      iteration := 27
      exponent := s.expX - s.expY
      state := .divide }

def decodeSqrt : Fp32 :=
  let s := { s with signResult := false }
  if isNan s.x then s.finish nan (nanFlags (isSnan s.x)) false
  else if isZero s.x then s.finish s.x 0 false
  else if s.x.msb then s.finish nan flagNv false
  else if isInf s.x then s.finish s.x 0 false
  else
    { s with
      radicand := if s.expX.getLsbD 0 then s.sigX ++ 0#30 else 0#1 ++ s.sigX ++ 0#29
      exponent := s.expX.sshiftRight 1
      root := 0
      sqrtRemainder := 0
      iteration := 27
      state := .sqrt }

def decodeFromInt : Fp32 :=
  let negative := s.operation = opI32ToF32 && s.x.msb
  { s with
    signResult := negative
    magnitude := (if negative then ~~~s.x + 1 else s.x) ++ 0#48
    exponent := 31
    state := .normalize }

def decodeToInt : Fp32 :=
  let s := { s with signResult := s.x.msb }
  if isNan s.x then
    s.finish (if s.operation = opF32ToU32 then 0xffffffff else 0x7fffffff) flagNv false
  else if isInf s.x || (31 : BitVec 12).slt s.expX then
    s.finish (if s.operation = opF32ToU32 then if s.x.msb then 0 else 0xffffffff
      else if s.x.msb then 0x80000000 else 0x7fffffff) flagNv false
  else { s with magnitude := s.sigX ++ 0#56, exponent := s.expX, state := .intShift }

def decodeCompare : Fp32 :=
  if isNan s.x || isNan s.y then
    s.finish 0 (nanFlags (s.operation ≠ opEq || isSnan s.x || isSnan s.y)) false
  else
    s.finish (0#31 ++ BitVec.ofBool (if s.operation = opEq then s.eqXy
      else if s.operation = opLt then s.ltXy else s.eqXy || s.ltXy)) 0 false

def decodeMinMax : Fp32 :=
  if isNan s.x then
    s.finish (if isNan s.y then nan else s.y) (nanFlags (isSnan s.x || isSnan s.y)) false
  else if isNan s.y then s.finish s.x (nanFlags (isSnan s.y)) false
  else if isZero s.x && isZero s.y then
    s.finish (if s.operation = opMin then s.x ||| s.y else s.x &&& s.y) 0 false
  else s.finish (if s.ltXy ^^ s.operation = opMax then s.x else s.y) 0 false

def decode : Fp32 :=
  if opMax < s.operation ∨ rmRmm < s.mode then s.finish 0 0 true
  else if s.operation = opAdd ∨ s.operation = opSub then s.decodeAdd
  else if opMul ≤ s.operation ∧ s.operation ≤ opFnmadd then s.decodeMul
  else if s.operation = opDiv then s.decodeDiv
  else if s.operation = opSqrt then s.decodeSqrt
  else if s.operation = opI32ToF32 ∨ s.operation = opU32ToF32 then s.decodeFromInt
  else if s.operation = opF32ToI32 ∨ s.operation = opF32ToU32 then s.decodeToInt
  else if opEq ≤ s.operation ∧ s.operation ≤ opLe then s.decodeCompare
  else s.decodeMinMax

def combine : Fp32 :=
  if s.signResult = s.signAddend then
    { s with magnitude := s.magnitude + s.addend, state := .normalize }
  else if s.addend ≤ s.magnitude then
    { s with
      magnitude := s.magnitude - s.addend
      signResult := if s.magnitude = s.addend then s.mode = rmRdn else s.signResult
      state := .normalize }
  else
    { s with
      magnitude := s.addend - s.magnitude
      signResult := s.signAddend
      state := .normalize }

def normalize : Fp32 :=
  if s.magnitude = 0 then s.finish (zero s.signResult) 0 false
  else if !s.magnitude.getLsbD 79 then
    { s with
      magnitude := s.magnitude <<< s.normalizeShift
      exponent := s.exponent - s.normalizeShift.setWidth 12 }
  else { s with tinyAfterRounding := s.finalExponent.slt (-126), state := .denormalize }

def denormalize : Fp32 :=
  if s.exponent.slt (-126) then { s with magnitude := s.magnitudeJammed, exponent := -126 }
  else { s with state := .round }

def round : Fp32 :=
  if (127 : BitVec 12).slt s.finalExponent then
    s.finish
      (BitVec.ofBool s.signResult ++ (if s.overflowInf then 0x7f800000#31 else 0x7f7fffff#31))
      (flagOf ||| flagNx) false
  else
    s.finish (BitVec.ofBool s.signResult ++ s.packedExponent ++ s.finalSignificand.extractLsb' 0 23)
      ((if s.discarded then flagNx else 0) |||
        (if s.discarded && s.tinyAfterRounding then flagUf else 0)) false

def divide : Fp32 :=
  let s' := { s with
    quotient := s.nextQuotient.extractLsb' 0 26
    divRemainder := s.divDifference <<< 1
    iteration := s.iteration - 1 }
  if s.iteration = 1 then
    { s' with
      magnitude := s.nextQuotient ++ 0#52 ++ BitVec.ofBool (s.divDifference ≠ 0)
      state := .normalize }
  else s'

def sqrt : Fp32 :=
  let s' := { s with
    root := s.nextRoot
    sqrtRemainder := s.sqrtDifference.extractLsb' 0 54
    radicand := s.radicand <<< 2
    iteration := s.iteration - 1 }
  if s.iteration = 1 then
    { s' with
      magnitude := s.nextRoot ++ 0#52 ++ BitVec.ofBool (s.sqrtDifference ≠ 0)
      state := .normalize }
  else s'

def intRound : Fp32 :=
  if s.integerInvalid then s.finish s.integerLimit flagNv false
  else
    s.finish (if s.signResult then ~~~s.integerRounded.extractLsb' 0 32 + 1
      else s.integerRounded.extractLsb' 0 32) (0#4 ++ BitVec.ofBool s.integerDiscarded) false

def work : Fp32 :=
  match s.state with
  | .idle => s
  | .decode => s.decode
  | .align => { s with magnitude := s.magnitudeJammed, state := .combine }
  | .combine => s.combine
  | .normalize => s.normalize
  | .denormalize => s.denormalize
  | .round => s.round
  | .divide => s.divide
  | .sqrt => s.sqrt
  | .intShift => { s with magnitude := s.magnitudeJammed, state := .intRound }
  | .intRound => s.intRound
  | .response => s

def accept (op : BitVec 5) (rm : BitVec 3) (a b c : Word) : Fp32 :=
  { s with operation := op, mode := rm, x := a, y := b, z := c, state := .decode }

def clock (i : FpPort) : Fp32 :=
  if i.reset then reset
  else match s.state with
    | .idle => if i.reqValid then s.accept i.op i.rm i.a i.b i.c else s
    | .response => if i.respReady then { s with state := .idle } else s
    | _ => s.work

def reqReady (i : FpPort) : Bool := s.state = .idle && !i.reset

def respValid (i : FpPort) : Bool := s.state = .response && !i.reset

end Cycles

end Fp32

end TinyProcessors
