import Mathlib.Data.Int.Notation

/-! The configuration of the chains and of the cross chain swaps. A duration is
an `int64` of nanoseconds. -/
namespace DistributedNotary.Service

inductive ChainName where
  | spectrum
  | bitcoin
  | ethereum
  deriving DecidableEq

structure ChainCfg where
  /-- The time between two blocks. -/
  blockPeriod : Int64
  /-- The cross fee is the amount divided by this rate; `0` is no fee. -/
  crossFeeRate : Int64
  blockPeriod_pos : 0 < blockPeriod

structure Cfg where
  SMC : ChainCfg
  BTC : ChainCfg
  ETH : ChainCfg
  minExpirationTime4User : Int64
  minExpirationTime4Notary : Int64

namespace Cfg

variable (cfg : Cfg)

def getCfgByChainName : ChainName → ChainCfg
  | .spectrum => cfg.SMC
  | .bitcoin => cfg.BTC
  | .ethereum => cfg.ETH

def getCrossFeeRate (chainName : ChainName) : Int64 := (cfg.getCfgByChainName chainName).crossFeeRate

def getMinExpirationBlock4User (chainName : ChainName) : UInt64 :=
  (cfg.minExpirationTime4User / (cfg.getCfgByChainName chainName).blockPeriod).toUInt64

def getMinExpirationBlock4Notary (chainName : ChainName) : UInt64 :=
  (cfg.minExpirationTime4Notary / (cfg.getCfgByChainName chainName).blockPeriod).toUInt64

def calculateCrossFee (chainName : ChainName) (amount : ℤ) : ℤ :=
  if cfg.getCrossFeeRate chainName = 0 then 0 else amount / (cfg.getCrossFeeRate chainName).toInt

/-- The configuration of the development build. -/
def dev : Cfg where
  SMC := { blockPeriod := 1000000000, crossFeeRate := 10000, blockPeriod_pos := by decide }
  BTC := { blockPeriod := 1000000000, crossFeeRate := 10000, blockPeriod_pos := by decide }
  ETH := { blockPeriod := 1000000000, crossFeeRate := 10000, blockPeriod_pos := by decide }
  minExpirationTime4User := 600000000000
  minExpirationTime4Notary := 300000000000

example : dev.getMinExpirationBlock4User .ethereum = 600 := by decide

end Cfg

end DistributedNotary.Service
