import ContractBench.Value

/-! # Networks

The networks whose block explorers verify contracts.
-/

namespace ContractBench.Verification

/-- A network. -/
structure Network where
  id : String
  name : String
  /-- The number that the network goes by. -/
  chain : Int
  /-- The address of its block explorer. -/
  explorer : String
  isTestnet : Bool := false
deriving DecidableEq, Repr

namespace Network

def all : List Network :=
  [⟨"ethereum", "Ethereum Mainnet", 1, "https://etherscan.io", false⟩,
    ⟨"ethereum-sepolia", "Sepolia Testnet", 11155111, "https://sepolia.etherscan.io", true⟩,
    ⟨"bsc", "BNB Smart Chain", 56, "https://bscscan.com", false⟩,
    ⟨"bsc-testnet", "BNB Smart Chain Testnet", 97, "https://testnet.bscscan.com", true⟩,
    ⟨"polygon", "Polygon", 137, "https://polygonscan.com", false⟩,
    ⟨"polygon-amoy", "Polygon Amoy", 80002, "https://amoy.polygonscan.com", true⟩,
    ⟨"arbitrum", "Arbitrum One", 42161, "https://arbiscan.io", false⟩,
    ⟨"arbitrum-sepolia", "Arbitrum Sepolia", 421614, "https://sepolia.arbiscan.io", true⟩,
    ⟨"optimism", "Optimism", 10, "https://optimistic.etherscan.io", false⟩,
    ⟨"optimism-sepolia", "Optimism Sepolia", 11155420,
      "https://sepolia-optimism.etherscan.io", true⟩,
    ⟨"avalanche", "Avalanche C-Chain", 43114, "https://snowtrace.io", false⟩,
    ⟨"avalanche-fuji", "Avalanche Fuji", 43113, "https://testnet.snowtrace.io", true⟩]

/-- The network of a chain number, which may be any value that equals it. -/
def find? (chain : Value) : Option Network := all.find? fun network =>
  (Value.int network.chain).same chain

def toFields (network : Network) : List (String × Value) :=
  [("id", .text network.id), ("name", .text network.name), ("chain_id", .int network.chain),
    ("block_explorer", .text network.explorer), ("is_testnet", .bool network.isTestnet)]

def contractPage (network : Network) (address : String) : String :=
  network.explorer ++ "/address/" ++ address ++ "#code"

end Network

end ContractBench.Verification
