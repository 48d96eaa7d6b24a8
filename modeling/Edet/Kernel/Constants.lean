import Edet.Kernel.Float64

/-!
# Constants of the kernel

The numbers the ledger's rules are written in. Amounts are in minor units, of which
`MINOR` make one unit; horizons and windows are in epochs. Only the constants that a
modelled function reads are here.
-/

namespace Edet.Constants

def baseCapacity : F64 := F64.ofNat 1000
def dust : F64 := F64.lit 1 100
def minor : F64 := F64.ofNat 100

/-- The largest amount one obligation may have, in minor units. -/
def maxAmountMinor : Nat := 2251799813685247

def stakeDecayNum : Nat := 977
def decayDen : Nat := 1000
def nuDrainNum : Nat := 1
def nuDrainDen : Nat := 1
def maxCascadeDepth : Nat := 20
def bondUnitFraction : F64 := F64.lit 2 100
def bondFreeAllowance : Nat := 32
def bondReleaseEpochs : Nat := 1
def bondForfeitEpochs : Nat := 3
def riskK : F64 := F64.lit 75 100

/-- The most arbiters a panel may have. -/
def nArb : Nat := 16

def thetaAdopt : F64 := F64.lit 5 10
def thetaAdoptValidator : F64 := F64.lit 6666666666666666 10000000000000000
def govCooldownEpochs : Nat := 90
def seedRate : F64 := F64.lit 2 100
def redenomBandLn : F64 := F64.lit 5 10
def epochSecs : Nat := 86400
def minMaturityEpochs : Nat := 30
def guardianMin : Nat := 2
def vetoWindowEpochs : Nat := minMaturityEpochs
def maxHorizonEpochs : Nat := 10000
def insuredHorizonEpochs : Nat := 365
def maxValidatorPower : Nat := 1000000
def minValidators : Nat := 1
def minValidatorsRealChain : Nat := 4
def maxEpochAdvancePerBlock : Nat := 10000
def nettingMaxRing : Nat := 8
def nettingMaxRingsPerEpoch : Nat := 64
def maxTxLifetimeEpochs : Nat := 30
def maxInstallments : Nat := 128
def closedRetentionEpochs : Nat := 365
def rowRetentionEpochs : Nat := 365
def proposalRetentionEpochs : Nat := 365

end Edet.Constants
