import Qubitcoin.PythonVm.Context

/-! The precompiled contracts of `vm.py`. -/

namespace Qubitcoin.PythonVm

open Evm (bigEndian ofBigEndian)

namespace Bn128

def P : ℕ := 21888242871839275222246405745257275088696311157297823662689037894645226208583
def N : ℕ := 21888242871839275222246405745257275088548364400416034343698204186575808495617

def inf : Point := (0, 0)

def isOnCurve (p : Point) : Bool :=
  p = inf || ((p.2 : ℤ) * p.2 - (p.1 : ℤ) * p.1 * p.1 - 3) % P = 0

/-- `pow(x, P - 2, P)`. -/
def invert (x : ℤ) : ℤ := x ^ (P - 2) % P

/-- The third point of the chord or tangent with the slope `lam`. -/
def chord (lam : ℤ) (p1 p2 : Point) : Point :=
  let x3 := (lam * lam - p1.1 - p2.1) % P
  let y3 := (lam * (p1.1 - x3) - p1.2) % P
  (x3.toNat, y3.toNat)

def add (p1 p2 : Point) : Point :=
  if p1 = inf then p2
  else if p2 = inf then p1
  else if p1.1 = p2.1 then
    if p1.2 = p2.2 ∧ p1.2 ≠ 0 then chord (3 * p1.1 * p1.1 * invert (2 * p1.2) % P) p1 p2 else inf
  else chord (((p2.2 : ℤ) - p1.2) * invert ((p2.1 : ℤ) - p1.1) % P) p1 p2

/-- The loop of the multiplication, over the bits of `n`. -/
def double : ℕ → Point → Point → ℕ → Point
  | 0, result, _, _ => result
  | bits + 1, result, addend, n =>
    if n = 0 then result
    else double bits (if n % 2 = 1 then add result addend else result) (add addend addend) (n / 2)

def mul (p : Point) (n : ℕ) : Point :=
  let n := n % N
  if n = 0 ∨ p = inf then inf else double (bitLength n) inf p n

/-- `_fp2_mul`. -/
def fp2Mul (a b : ℤ × ℤ) : ℤ × ℤ :=
  ((a.1 * b.1 - a.2 * b.2) % P, (a.1 * b.2 + a.2 * b.1) % P)

def fp2Add (a b : ℤ × ℤ) : ℤ × ℤ := ((a.1 + b.1) % P, (a.2 + b.2) % P)

def fp2Inv (a : ℤ × ℤ) : ℤ × ℤ :=
  let invNorm := invert ((a.1 * a.1 + a.2 * a.2) % P)
  (a.1 * invNorm % P, -a.2 * invNorm % P)

def fp2Eq (a b : ℤ × ℤ) : Bool := a.1 % P = b.1 % P && a.2 % P = b.2 % P

def twistB : ℤ × ℤ := fp2Mul (3, 0) (fp2Inv (9, 1))

def g2IsInf (p : TwistPoint) : Bool :=
  fp2Eq (p.1.1, p.1.2) (0, 0) && fp2Eq (p.2.1, p.2.2) (0, 0)

def g2IsOnCurve (p : TwistPoint) : Bool :=
  let x : ℤ × ℤ := (p.1.1, p.1.2)
  let y : ℤ × ℤ := (p.2.1, p.2.2)
  g2IsInf p || fp2Eq (fp2Mul y y) (fp2Add (fp2Mul (fp2Mul x x) x) twistB)

end Bn128

namespace Blake2b

def sigma : List (List ℕ) :=
  [[0, 1, 2, 3, 4, 5, 6, 7, 8, 9, 10, 11, 12, 13, 14, 15],
    [14, 10, 4, 8, 9, 15, 13, 6, 1, 12, 0, 2, 11, 7, 5, 3],
    [11, 8, 12, 0, 5, 2, 15, 13, 10, 14, 3, 6, 7, 1, 9, 4],
    [7, 9, 3, 1, 13, 12, 11, 14, 2, 6, 5, 10, 4, 0, 15, 8],
    [9, 0, 5, 7, 2, 4, 10, 15, 14, 1, 11, 12, 6, 8, 3, 13],
    [2, 12, 6, 10, 0, 11, 8, 3, 4, 13, 7, 5, 15, 14, 1, 9],
    [12, 5, 1, 15, 14, 13, 4, 10, 0, 7, 6, 3, 9, 2, 8, 11],
    [13, 11, 7, 14, 12, 1, 3, 9, 5, 0, 15, 4, 8, 6, 2, 10],
    [6, 15, 14, 9, 11, 3, 0, 8, 12, 2, 13, 7, 1, 4, 10, 5],
    [10, 2, 8, 4, 7, 6, 1, 5, 15, 11, 9, 14, 3, 12, 13, 0]]

def iv : List (BitVec 64) :=
  [0x6a09e667f3bcc908, 0xbb67ae8584caa73b, 0x3c6ef372fe94f82b, 0xa54ff53a5f1d36f1,
    0x510e527fade682d1, 0x9b05688c2b3e6c1f, 0x1f83d9abfb41bd6b, 0x5be0cd19137e2179]

/-- `_blake2b_G`. -/
def G (v : List (BitVec 64)) (a b c d : ℕ) (x y : BitVec 64) : List (BitVec 64) :=
  let v := v.set a (v.getD a 0 + v.getD b 0 + x)
  let v := v.set d ((v.getD d 0 ^^^ v.getD a 0).rotateRight 32)
  let v := v.set c (v.getD c 0 + v.getD d 0)
  let v := v.set b ((v.getD b 0 ^^^ v.getD c 0).rotateRight 24)
  let v := v.set a (v.getD a 0 + v.getD b 0 + y)
  let v := v.set d ((v.getD d 0 ^^^ v.getD a 0).rotateRight 16)
  let v := v.set c (v.getD c 0 + v.getD d 0)
  v.set b ((v.getD b 0 ^^^ v.getD c 0).rotateRight 63)

def round (m v : List (BitVec 64)) (i : ℕ) : List (BitVec 64) :=
  let s := sigma.getD (i % 10) []
  let word (j : ℕ) := m.getD (s.getD j 0) 0
  let v := G v 0 4 8 12 (word 0) (word 1)
  let v := G v 1 5 9 13 (word 2) (word 3)
  let v := G v 2 6 10 14 (word 4) (word 5)
  let v := G v 3 7 11 15 (word 6) (word 7)
  let v := G v 0 5 10 15 (word 8) (word 9)
  let v := G v 1 6 11 12 (word 10) (word 11)
  let v := G v 2 7 8 13 (word 12) (word 13)
  G v 3 4 9 14 (word 14) (word 15)

def compress (rounds : ℕ) (h m : List (BitVec 64)) (t0 t1 : BitVec 64) (f : Bool) :
    List (BitVec 64) :=
  let v := h ++ iv
  let v := (v.set 12 (v.getD 12 0 ^^^ t0)).set 13 (v.getD 13 0 ^^^ t1)
  let v := if f then v.set 14 (~~~v.getD 14 0) else v
  let v := (List.range rounds).foldl (round m) v
  (List.range 8).map fun i => h.getD i 0 ^^^ v.getD i 0 ^^^ v.getD (i + 8) 0

/-- Words of eight bytes each, the lowest byte first. -/
def readWords (data : Bytes) (start count : ℕ) : List (BitVec 64) :=
  (List.range count).map fun i => BitVec.ofNat 64 (Bytes.ofLe (slice data (start + 8 * i) 8))

end Blake2b

/-- What a precompiled contract leaves of its result. -/
structure Precompiled where
  success : Bool
  gasUsed : ℕ
  returnData : Bytes
  revertReason : String

namespace Precompiled

/-- An early return, or what the last handler makes of an exception, with the gas noted so far. -/
def failed (gasUsed : ℕ) (revertReason : String) : Precompiled := ⟨false, gasUsed, [], revertReason⟩

/-- The end of `_execute_precompile`, where the gas is compared with what was given. -/
def settled (gas gasUsed : ℕ) (returnData : Bytes) : Precompiled :=
  if gas < gasUsed then ⟨false, gasUsed, returnData, "Out of gas in precompile"⟩
  else ⟨true, gasUsed, returnData, ""⟩

end Precompiled

/-- `int.from_bytes(data[start:start + 32], 'big')`. -/
def readInt (data : Bytes) (start : ℕ) : ℕ := ofBigEndian (slice data start 32)

def pointBytes (p : Point) : Bytes :=
  if p = Bn128.inf then zeros 64 else bigEndian 32 p.1 ++ bigEndian 32 p.2

def ecRecover (crypto : Crypto) (data : Bytes) (gas : ℕ) : Precompiled :=
  .settled gas 3000 <|
    if 128 ≤ data.length then
      crypto.ecrecover (data.take 32) (readInt data 32) (readInt data 64) (readInt data 96)
    else zeros 32

def sha256Contract (crypto : Crypto) (data : Bytes) (gas : ℕ) : Precompiled :=
  .settled gas (60 + 12 * words data.length) (crypto.sha256 data)

def ripemd160Contract (crypto : Crypto) (data : Bytes) (gas : ℕ) : Precompiled :=
  let gasUsed := 600 + 120 * words data.length
  match crypto.ripemd160 data with
  | .ok h => .settled gas gasUsed (zeros 12 ++ h)
  | .error err => .failed gasUsed ("Precompile error: " ++ err)

def identity (data : Bytes) (gas : ℕ) : Precompiled :=
  .settled gas (15 + 3 * words data.length) data

/-- The complexity of a multiplication; for lengths over 64 its value is not below zero. -/
def multComplexity (maxLen : ℕ) : ℕ :=
  if maxLen ≤ 64 then maxLen * maxLen
  else if maxLen ≤ 1024 then maxLen * maxLen / 4 + 96 * maxLen - 3072
  else maxLen * maxLen / 16 + 480 * maxLen - 199680

def modexpGas (data : Bytes) (bLen eLen mLen : ℕ) : ℕ :=
  let expHead := ofBigEndian (slice data (96 + bLen) (min eLen 32))
  let adjExpLen :=
    if eLen ≤ 32 then bitLength expHead - 1 else 8 * (eLen - 32) + (bitLength expHead - 1)
  max 200 (multComplexity (max bLen mLen) * max adjExpLen 1 / 3)

def modexp (crypto : Crypto) (data : Bytes) (gas : ℕ) : Precompiled :=
  if 96 ≤ data.length then
    let bLen := readInt data 0
    let eLen := readInt data 32
    let mLen := readInt data 64
    let gasUsed := modexpGas data bLen eLen mLen
    let base := ofBigEndian (slice data 96 bLen)
    let exp := ofBigEndian (slice data (96 + bLen) eLen)
    let mod := ofBigEndian (slice data (96 + bLen + eLen) mLen)
    if crypto.maxLength < max mLen 1 then
      .failed gasUsed "Precompile error: cannot fit the result into memory"
    else
      .settled gas gasUsed
        (if mod = 0 then zeros (max mLen 1) else bigEndian (max mLen 1) (base ^ exp % mod))
  else .settled gas 200 (zeros 32)

def ecAdd (data : Bytes) (gas : ℕ) : Precompiled :=
  let padded := padRight data 128
  let p1 : Point := (readInt padded 0, readInt padded 32)
  let p2 : Point := (readInt padded 64, readInt padded 96)
  if !Bn128.isOnCurve p1 || !Bn128.isOnCurve p2 then .failed 150 "ecAdd: point not on curve"
  else .settled gas 150 (pointBytes (Bn128.add p1 p2))

def ecMul (data : Bytes) (gas : ℕ) : Precompiled :=
  let padded := padRight data 96
  let p1 : Point := (readInt padded 0, readInt padded 32)
  if !Bn128.isOnCurve p1 then .failed 6000 "ecMul: point not on curve"
  else .settled gas 6000 (pointBytes (Bn128.mul p1 (readInt padded 64)))

/-- The pair at a position, with its imaginary parts first. -/
def readPair (data : Bytes) (off : ℕ) : Point × TwistPoint :=
  ((readInt data off, readInt data (off + 32)),
    ((readInt data (off + 96), readInt data (off + 64)),
      (readInt data (off + 160), readInt data (off + 128))))

/-- The first point of the pairs that is not on its curve, by its text. -/
def offCurve : ℕ → List (Point × TwistPoint) → Option String
  | _, [] => none
  | i, (g1, g2) :: pairs =>
    if !Bn128.isOnCurve g1 then some ("ecPairing: G1 point " ++ toString i ++ " not on curve")
    else if !Bn128.g2IsOnCurve g2 then
      some ("ecPairing: G2 point " ++ toString i ++ " not on curve")
    else offCurve (i + 1) pairs

def ecPairing (crypto : Crypto) (now : ℕ) (data : Bytes) (gas : ℕ) : Precompiled :=
  let k := data.length / 192
  let gasUsed := 45000 + k * 34000
  if 8 < k then
    .failed gasUsed ("ecPairing: too many pairs (" ++ toString k ++ " > " ++ toString 8 ++ ")")
  else if data.length % 192 ≠ 0 then .failed gasUsed "ecPairing: invalid input length"
  else
    let pairs := (List.range k).map fun i => readPair data (i * 192)
    match offCurve 0 pairs with
    | some reason => .failed gasUsed reason
    | none =>
      match crypto.pairingCheck now pairs with
      | .timedOut => .failed gas "ecPairing: computation timeout (out of gas)"
      | .answered ok => .settled gas gasUsed (zeros 31 ++ [if ok then 1 else 0])
      | .failed => .settled gas gasUsed (zeros 32)

def blake2f (data : Bytes) (gas : ℕ) : Precompiled :=
  if data.length ≠ 213 then .failed 0 "blake2f: invalid input length (expected 213)"
  else
    let rounds := ofBigEndian (slice data 0 4)
    let flagByte := data.getD 212 0
    if flagByte ≠ 0 ∧ flagByte ≠ 1 then .failed rounds "blake2f: invalid final block flag"
    else
      let h := Blake2b.readWords data 4 8
      let m := Blake2b.readWords data 68 16
      let t0 := BitVec.ofNat 64 (Bytes.ofLe (slice data 196 8))
      let t1 := BitVec.ofNat 64 (Bytes.ofLe (slice data 204 8))
      let hOut := Blake2b.compress rounds h m t0 t1 (flagByte = 1)
      .settled gas rounds (hOut.flatMap fun v => Bytes.le 8 v.toNat)

/-- `_execute_precompile`. -/
def executePrecompile (crypto : Crypto) (now address : ℕ) (data : Bytes) (gas : ℕ) :
    Precompiled :=
  match address with
  | 1 => ecRecover crypto data gas
  | 2 => sha256Contract crypto data gas
  | 3 => ripemd160Contract crypto data gas
  | 4 => identity data gas
  | 5 => modexp crypto data gas
  | 6 => ecAdd data gas
  | 7 => ecMul data gas
  | 8 => ecPairing crypto now data gas
  | 9 => blake2f data gas
  | _ => .failed 0 ("Unknown precompile: " ++ toString address)

end Qubitcoin.PythonVm
