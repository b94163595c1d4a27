import Qubitcoin.Node.Transaction

/-! The Merkle Patricia trie of `qvm/mpt.py`: its nodes, their encoding, and the operations. -/

namespace Qubitcoin.Qvm

abbrev Nibble := Fin 16

-- of the numerals in `Nibble`
instance neZeroSixteen : NeZero 16 := ⟨by decide⟩

def bytesToNibbles (data : Bytes) : List Nibble :=
  data.flatMap fun byte => [Fin.ofNat 16 (byte.toNat / 16), Fin.ofNat 16 byte.toNat]

/-- Of a list of even length; the source raises on others. -/
def nibblesToBytes : List Nibble → Bytes
  | high :: low :: nibbles => UInt8.ofNat (16 * high + low) :: nibblesToBytes nibbles
  | _ => []

def compactEncode (nibbles : List Nibble) (isLeaf : Bool) : Bytes :=
  let flag : Nibble := if isLeaf then 2 else 0
  if nibbles.length % 2 = 1 then nibblesToBytes ((flag + 1) :: nibbles)
  else nibblesToBytes (flag :: 0 :: nibbles)

def sharedPrefixLength : List Nibble → List Nibble → ℕ
  | a :: as, b :: bs => if a = b then sharedPrefixLength as bs + 1 else 0
  | _, _ => 0

def encodeLength (length : ℕ) : Bytes :=
  if length = 0 then [0] else ((Nat.digits 256 length).map UInt8.ofNat).reverse

/-- `rlp_encode` of bytes. -/
def rlpEncodeBytes (item : Bytes) : Bytes :=
  if item.length = 1 ∧ item.headD 0 < 0x80 then item
  else if item.length < 56 then UInt8.ofNat (0x80 + item.length) :: item
  else UInt8.ofNat (0xB7 + (encodeLength item.length).length) :: (encodeLength item.length ++ item)

/-- `rlp_encode` of a list of bytes; `None` in the list is written as empty bytes are. -/
def rlpEncodeList (items : List Bytes) : Bytes :=
  let payload := items.flatMap rlpEncodeBytes
  if payload.length < 56 then UInt8.ofNat (0xC0 + payload.length) :: payload
  else
    UInt8.ofNat (0xF7 + (encodeLength payload.length).length) ::
      (encodeLength payload.length ++ payload)

/-- `empty` is `None`, where there is no node. -/
inductive TrieNode
  | empty
  | leaf (path : List Nibble) (value : Bytes)
  | extension (path : List Nibble) (nextNode : TrieNode)
  | branch (children : Nibble → TrieNode) (value : Bytes)

namespace TrieNode

def isEmpty : TrieNode → Bool
  | empty => true
  | _ => false

def isBranch : TrieNode → Bool
  | branch _ _ => true
  | _ => false

section Encoding

variable (keccak256 : Bytes → Bytes)

/-- An encoding of less than 32 bytes stands for itself. -/
def digest (encoded : Bytes) : Bytes := if encoded.length < 32 then encoded else keccak256 encoded

def encode : TrieNode → Bytes
  | empty => [0x80]
  | leaf path value => rlpEncodeList [compactEncode path true, value]
  | extension path nextNode =>
    rlpEncodeList [compactEncode path false,
      if nextNode.isEmpty then [] else digest keccak256 (encode nextNode)]
  | branch children value =>
    rlpEncodeList ((List.ofFn fun i =>
      if (children i).isEmpty then [] else digest keccak256 (encode (children i))) ++ [value])

def hash (node : TrieNode) : Bytes := digest keccak256 (node.encode keccak256)

end Encoding

/-- A branch of no children. -/
def noChildren : Nibble → TrieNode := fun _ => empty

/-- An extension, where nibbles are shared. -/
def underShared (path : List Nibble) (branch : TrieNode) : TrieNode :=
  if path.length > 0 then extension path branch else branch

/-- A leaf and a new key whose paths differ: of what is left of the two after the shared prefix,
nothing becomes the value of the branch. -/
def splitLeaf (existingPath : List Nibble) (oldValue : Bytes) (nibbles : List Nibble)
    (value : Bytes) : TrieNode :=
  let shared := sharedPrefixLength nibbles existingPath
  match existingPath.drop shared, nibbles.drop shared with
  | [], [] => leaf existingPath value
  | [], new :: remainingNew =>
    underShared (nibbles.take shared)
      (branch (Function.update noChildren new (leaf remainingNew value)) oldValue)
  | old :: remainingOld, [] =>
    underShared (nibbles.take shared)
      (branch (Function.update noChildren old (leaf remainingOld oldValue)) value)
  | old :: remainingOld, new :: remainingNew =>
    underShared (nibbles.take shared)
      (branch (Function.update (Function.update noChildren old (leaf remainingOld oldValue)) new
        (leaf remainingNew value)) [])

def put : TrieNode → List Nibble → Bytes → TrieNode
  | empty, nibbles, value => leaf nibbles value
  | leaf path oldValue, nibbles, value => splitLeaf path oldValue nibbles value
  | extension extPath nextNode, nibbles, value =>
    let shared := sharedPrefixLength nibbles extPath
    match extPath.drop shared, nibbles.drop shared with
    | [], rest => extension extPath (put nextNode rest value)
    | ext :: remainingExt, rest =>
      let children := Function.update noChildren ext
        (if remainingExt.length > 0 then extension remainingExt nextNode else nextNode)
      underShared (nibbles.take shared) (match rest with
        | new :: remainingNew =>
          branch (Function.update children new (leaf remainingNew value)) []
        | [] => branch children value)
  | branch children _, [], value => branch children value
  | branch children oldValue, idx :: nibbles, value =>
    branch (Function.update children idx (put (children idx) nibbles value)) oldValue

/-- What `_put` takes off the size again. -/
def sizeCorrection : TrieNode → List Nibble → Bytes → ℤ
  | empty, _, _ => 0
  | leaf path _, nibbles, _ => if nibbles = path then 1 else 0
  | extension extPath nextNode, nibbles, value =>
    if sharedPrefixLength nibbles extPath = extPath.length then
      sizeCorrection nextNode (nibbles.drop extPath.length) value
    else 0
  | branch _ _, [], value => if value = [] then 0 else 1
  | branch children _, idx :: nibbles, value => sizeCorrection (children idx) nibbles value

def get : TrieNode → List Nibble → Option Bytes
  | empty, _ => none
  | leaf path value, nibbles => if nibbles = path then some value else none
  | extension extPath nextNode, nibbles =>
    if nibbles.take extPath.length = extPath then get nextNode (nibbles.drop extPath.length)
    else none
  | branch _ value, [] => if value = [] then none else some value
  | branch children _, idx :: nibbles => get (children idx) nibbles

def compactBranch (children : Nibble → TrieNode) (value : Bytes) : TrieNode :=
  match (List.finRange 16).filter fun i => !(children i).isEmpty with
  | [] => if value = [] then branch children value else leaf [] value
  | [idx] =>
    if value = [] then
      match children idx with
      | leaf path value => leaf (idx :: path) value
      | extension path nextNode => extension (idx :: path) nextNode
      | child => extension [idx] child
    else branch children value
  | _ => branch children value

def delete : TrieNode → List Nibble → TrieNode × Bool
  | empty, _ => (empty, false)
  | leaf path value, nibbles => if nibbles = path then (empty, true) else (leaf path value, false)
  | extension extPath nextNode, nibbles =>
    if nibbles.take extPath.length = extPath then
      match delete nextNode (nibbles.drop extPath.length) with
      | (_, false) => (extension extPath nextNode, false)
      | (empty, true) => (empty, true)
      | (leaf path value, true) => (leaf (extPath ++ path) value, true)
      | (extension path nextNode, true) => (extension (extPath ++ path) nextNode, true)
      | (branch children value, true) => (extension extPath (branch children value), true)
    else (extension extPath nextNode, false)
  | branch children value, [] =>
    if value = [] then (branch children value, false) else (compactBranch children [], true)
  | branch children value, idx :: nibbles =>
    match delete (children idx) nibbles with
    | (_, false) => (branch children value, false)
    | (newChild, true) => (compactBranch (Function.update children idx newChild) value, true)

def collectProof (keccak256 : Bytes → Bytes) : TrieNode → List Nibble → List Bytes
  | empty, _ => []
  | leaf path value, _ => [encode keccak256 (leaf path value)]
  | extension extPath nextNode, nibbles =>
    encode keccak256 (extension extPath nextNode) ::
      if nibbles.take extPath.length = extPath then
        collectProof keccak256 nextNode (nibbles.drop extPath.length)
      else []
  | branch children value, [] => [encode keccak256 (branch children value)]
  | branch children value, idx :: nibbles =>
    encode keccak256 (branch children value) :: collectProof keccak256 (children idx) nibbles

end TrieNode

structure MerklePatriciaTrie where
  root : TrieNode
  size : ℤ

namespace MerklePatriciaTrie

open Node (toHex)

def new : MerklePatriciaTrie := ⟨.empty, 0⟩

section Operations

variable (keccak256 : Bytes → Bytes) (trie : MerklePatriciaTrie)

def emptyRoot : String := toHex (keccak256 [0x80])

def rootHash : String :=
  if trie.root.isEmpty then emptyRoot keccak256 else toHex (trie.root.hash keccak256)

def delete (key : Bytes) : MerklePatriciaTrie × Bool :=
  match trie.root.delete (bytesToNibbles (keccak256 key)) with
  | (newRoot, true) => (⟨newRoot, trie.size - 1⟩, true)
  | (_, false) => (trie, false)

def put (key value : Bytes) : MerklePatriciaTrie :=
  if value = [] then (trie.delete keccak256 key).1
  else
    let nibbles := bytesToNibbles (keccak256 key)
    ⟨trie.root.put nibbles value, trie.size + 1 - trie.root.sizeCorrection nibbles value⟩

def get (key : Bytes) : Option Bytes := trie.root.get (bytesToNibbles (keccak256 key))

def getProof (key : Bytes) : List Bytes :=
  trie.root.collectProof keccak256 (bytesToNibbles (keccak256 key))

end Operations

/-- The walk over the nodes of a proof: an empty one answers, otherwise the last one. -/
def walkProof (value : Bytes) : List Bytes → Bool
  | [] => false
  | nodeData :: proof =>
    if nodeData = [] ∨ nodeData = [0x80] then value = []
    else if proof = [] then value <:+: nodeData
    else walkProof value proof

/-- The path of the key is computed and not looked at. -/
def verifyProof (keccak256 : Bytes → Bytes) (rootHash : String) (_key value : Bytes)
    (proof : List Bytes) : Bool :=
  match proof with
  | [] => rootHash = emptyRoot keccak256 ∧ value = []
  | firstNode :: _ =>
    let computedRoot :=
      if firstNode.length < 32 then toHex firstNode else toHex (keccak256 firstNode)
    computedRoot = rootHash && walkProof value proof

inductive Op
  | put (key value : Bytes)
  | delete (key : Bytes)

def apply (keccak256 : Bytes → Bytes) (trie : MerklePatriciaTrie) : Op → MerklePatriciaTrie
  | .put key value => trie.put keccak256 key value
  | .delete key => (trie.delete keccak256 key).1

def after (keccak256 : Bytes → Bytes) (ops : List Op) : MerklePatriciaTrie :=
  ops.foldl (apply keccak256) new

end MerklePatriciaTrie

end Qubitcoin.Qvm
