import PrivateDatagram.Chainstate.Coins

/-!
# Networks and rewards

The networks, the budget cycle of each, and the reward that `GetBlockValue`
pays a block by its height.
-/

namespace PrivateDatagram.Consensus.ChainParams

open Chainstate.Coins

/-- `CBaseChainParams::Network`. -/
inductive Network where
  | main
  | testnet
  | regtest
  | unittest
deriving DecidableEq, Repr

def getBudgetPaymentCycleBlocks (network : Network) : Int32 :=
  if network = .main then 43200 else 144

/-- The amount `3.75 * COIN`, which is exact as a double. -/
def threeCoinsAndThreeQuarters : Int64 := 375000000

/-- `GetBlockValue`. -/
def getBlockValue (networkId : Network) (nHeight : Int) : Int64 :=
  if networkId = .testnet ∧ nHeight < 200 ∧ nHeight > 0 then
    500 * coin
  else if networkId = .testnet ∧ nHeight > 40000 then
    0
  else if nHeight = 0 then
    3840000 * coin
  else if nHeight < 160 ∧ nHeight > 0 then
    0
  else if nHeight ≤ 20000 ∧ nHeight ≥ 160 then
    1 * coin
  else if nHeight ≤ 175000 ∧ nHeight ≥ 20001 then
    threeCoinsAndThreeQuarters
  else if nHeight ≤ 350000 ∧ nHeight ≥ 175001 then
    5 * coin
  else if nHeight ≤ 2100000 ∧ nHeight ≥ 350001 then
    25 * coin
  else if nHeight ≤ 4000000 ∧ nHeight ≥ 2100001 then
    12 * coin
  else if nHeight ≤ 6000000 ∧ nHeight ≥ 4000001 then
    6 * coin
  else if nHeight ≤ 12000000 ∧ nHeight ≥ 6000001 then
    3 * coin
  else if nHeight ≤ 20000000 ∧ nHeight ≥ 12000001 then
    2 * coin
  else if nHeight ≤ 30133971 ∧ nHeight ≥ 20000001 then
    1 * coin
  else
    0

end PrivateDatagram.Consensus.ChainParams
