import IntBlock.Lib.Solidity
import IntBlock.Lib.Machine

/-!
# The contract `NFTOwnerTracker`

`foundry/src/NFTOwnerTracker.sol`, function by function: the storage, the
events, the custom errors, the four mutators, the queries, and what a
transaction is.  A mutator takes `msg.sender` first and returns the new storage
and log, or what it reverts with; the revert is undone by `Machine.step`, which
keeps the state from before the call.

## Main definitions

* `Storage`, `Event`, `Error` — what the contract keeps, emits and throws.
* `World` — the storage together with the log of events.
* `changeAdmin`, `registerNFT`, `registerBatchNFTs`, `transferNFT` — the mutators.
* `Call`, `Tx`, `exec` — the external calls.
* `deploy`, `Reachable` — the constructor, and the states of the deployed contract.
-/

namespace IntBlock
namespace NFTOwnerTracker

open Solidity

/-! ### State, events, errors -/

/-- The state variables. -/
@[ext] structure Storage where
  admin : Address
  tokenOwners : Uint256 → Address
  ownedTokens : Address → StorageArray Uint256
  tokenIndex : Uint256 → Uint256
  totalTokens : Uint256

inductive Event
  | nftRegistered (tokenId : Uint256) (owner : Address)
  | nftTransferred (tokenId : Uint256) (previousOwner newOwner : Address)
  | adminChanged (previousAdmin newAdmin : Address)
  deriving DecidableEq, Repr

inductive Error
  | unauthorized
  | tokenNotFound
  | invalidAddress
  | tokenAlreadyExists
  | sameOwner
  deriving DecidableEq, Repr

/-- What a call returns: a value, or what it reverts with. -/
abbrev Result := Except (Revert Error)

/-- The contract's storage and the events it has emitted, oldest first. -/
@[ext] structure World where
  storage : Storage
  log : List Event

/-! ### The mutators -/

/-- The modifier `onlyAdmin`. -/
def onlyAdmin (sender : Address) (s : Storage) : Result Unit :=
  revertIf (sender ≠ s.admin) .unauthorized

def changeAdmin (sender newAdmin : Address) (w : World) : Result World := do
  onlyAdmin sender w.storage
  revertIf (newAdmin = 0) .invalidAddress
  let previousAdmin := w.storage.admin
  let s := { w.storage with admin := newAdmin }
  return ⟨s, w.log ++ [.adminChanged previousAdmin newAdmin]⟩

def registerNFT (sender : Address) (tokenId : Uint256) (owner : Address) (w : World) :
    Result World := do
  onlyAdmin sender w.storage
  revertIf (owner = 0) .invalidAddress
  let mut s := w.storage
  revertIf (s.tokenOwners tokenId ≠ 0) .tokenAlreadyExists
  s := { s with tokenOwners := Function.update s.tokenOwners tokenId owner }
  s := { s with tokenIndex := Function.update s.tokenIndex tokenId (s.ownedTokens owner).length }
  s := { s with
    ownedTokens := Function.update s.ownedTokens owner ((s.ownedTokens owner).push tokenId) }
  let totalTokens ← checkedAdd s.totalTokens 1
  s := { s with totalTokens }
  return ⟨s, w.log ++ [.nftRegistered tokenId owner]⟩

/-- The body of the loop of `registerBatchNFTs`, at `tokenIds[i] = tokenId`. -/
def registerBatchBody (owner : Address) (w : World) (tokenId : Uint256) : Result World := do
  let mut s := w.storage
  revertIf (s.tokenOwners tokenId ≠ 0) .tokenAlreadyExists
  s := { s with tokenOwners := Function.update s.tokenOwners tokenId owner }
  s := { s with tokenIndex := Function.update s.tokenIndex tokenId (s.ownedTokens owner).length }
  s := { s with
    ownedTokens := Function.update s.ownedTokens owner ((s.ownedTokens owner).push tokenId) }
  let totalTokens ← checkedAdd s.totalTokens 1
  s := { s with totalTokens }
  return ⟨s, w.log ++ [.nftRegistered tokenId owner]⟩

def registerBatchNFTs (sender : Address) (tokenIds : List Uint256) (owner : Address) (w : World) :
    Result World := do
  onlyAdmin sender w.storage
  revertIf (owner = 0) .invalidAddress
  tokenIds.foldlM (registerBatchBody owner) w

def transferNFT (sender : Address) (tokenId : Uint256) (newOwner : Address) (w : World) :
    Result World := do
  onlyAdmin sender w.storage
  revertIf (newOwner = 0) .invalidAddress
  let mut s := w.storage
  let currentOwner := s.tokenOwners tokenId
  revertIf (currentOwner = 0) .tokenNotFound
  revertIf (currentOwner = newOwner) .sameOwner
  -- remove the token from the current owner's list
  let index := s.tokenIndex tokenId
  let last ← checkedSub (s.ownedTokens currentOwner).length 1
  let lastToken ← (s.ownedTokens currentOwner).get last
  let overwritten ← (s.ownedTokens currentOwner).set index lastToken
  s := { s with ownedTokens := Function.update s.ownedTokens currentOwner overwritten }
  s := { s with tokenIndex := Function.update s.tokenIndex lastToken index }
  let popped ← (s.ownedTokens currentOwner).pop
  s := { s with ownedTokens := Function.update s.ownedTokens currentOwner popped }
  -- add the token to the new owner's list
  s := { s with tokenIndex := Function.update s.tokenIndex tokenId (s.ownedTokens newOwner).length }
  s := { s with
    ownedTokens := Function.update s.ownedTokens newOwner ((s.ownedTokens newOwner).push tokenId) }
  s := { s with tokenOwners := Function.update s.tokenOwners tokenId newOwner }
  return ⟨s, w.log ++ [.nftTransferred tokenId currentOwner newOwner]⟩

/-! ### The queries -/

def getOwner (tokenId : Uint256) (s : Storage) : Result Address := do
  let owner := s.tokenOwners tokenId
  revertIf (owner = 0) .tokenNotFound
  return owner

def isTokenTracked (tokenId : Uint256) (s : Storage) : Bool := s.tokenOwners tokenId ≠ 0

def getOwnedTokens (owner : Address) (s : Storage) : List Uint256 := (s.ownedTokens owner).toList

def getOwnedTokenCount (owner : Address) (s : Storage) : Uint256 := (s.ownedTokens owner).length

def getOwnedTokenAt (owner : Address) (index : Uint256) (s : Storage) : Result Uint256 :=
  (s.ownedTokens owner).get index

def getTokenInfo (tokenId : Uint256) (s : Storage) : Result Address := do
  let owner := s.tokenOwners tokenId
  revertIf (owner = 0) .tokenNotFound
  return owner

/-! ### Transactions -/

/-- A call of one of the mutators. -/
inductive Call
  | changeAdmin (newAdmin : Address)
  | registerNFT (tokenId : Uint256) (owner : Address)
  | registerBatchNFTs (tokenIds : List Uint256) (owner : Address)
  | transferNFT (tokenId : Uint256) (newOwner : Address)
  deriving DecidableEq, Repr

/-- An external call with its `msg.sender`. -/
structure Tx where
  sender : Address
  call : Call
  deriving DecidableEq, Repr

/-- What a transaction runs. -/
def exec (w : World) (tx : Tx) : Result World :=
  match tx.call with
  | .changeAdmin newAdmin => changeAdmin tx.sender newAdmin w
  | .registerNFT tokenId owner => registerNFT tx.sender tokenId owner w
  | .registerBatchNFTs tokenIds owner => registerBatchNFTs tx.sender tokenIds owner w
  | .transferNFT tokenId newOwner => transferNFT tx.sender tokenId newOwner w

/-- The constructor, called by `deployer`; every other variable is zero. -/
def deploy (deployer : Address) : World where
  storage :=
    { admin := deployer
      tokenOwners := fun _ => 0
      ownedTokens := fun _ => .empty
      tokenIndex := fun _ => 0
      totalTokens := 0 }
  log := []

/-- The states a deployed contract gets into, whoever deployed it and whoever
calls what. -/
def Reachable (w : World) : Prop :=
  ∃ deployer txs, w = Machine.run exec (deploy deployer) txs

end NFTOwnerTracker
end IntBlock
