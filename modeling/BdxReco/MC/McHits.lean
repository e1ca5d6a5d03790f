import Mathlib.Data.Rat.Defs

/-!
# `MC.McHits` — the hits of a simulated event

The classes between the simulation's banks (`MC.McSource`) and the factories with tag "MC". Positions, charges and times
are `int`s there, whatever the geometry makes of them; `MCType` says which geometry was simulated. The zeros below are for
hits that are written out here: the source does not initialise these members.
-/

namespace BdxReco

/-- `MCType::TYPE`, the parameter "MC". -/
inductive MCType where
  | cataniaV1
  | cataniaV2
  | fullV1
  | fullV2
  | jlabFluxV1
  | bdxminiV1
  deriving DecidableEq, Repr

/-- `CalorimeterMCHit`. The members of the raw bank are not set by the constructor: `none`. -/
structure CalorimeterMCHit where
  x : Int
  y : Int
  sector : Int
  adcl : Int
  adcr : Int
  tdcl : Int
  tdcr : Int
  adcb : Int := 0
  adcf : Int := 0
  tdcb : Int := 0
  tdcf : Int := 0
  totEdep : Option ℚ := none
  pid : Option Int := none
  deriving DecidableEq, Repr

namespace VetoMCHit

/-! `VetoMCHit::SYSTEMS`. -/

def cataniaIntVeto : Int := 1
def cataniaExtVeto : Int := 2
def fullIntVeto : Int := 4
def fullExtVeto : Int := 5
def jlabFlux : Int := 6
def bdxminiExtVeto : Int := 7
def bdxminiIntVeto : Int := 8

end VetoMCHit

/-- `IntVetoMCHit`. -/
structure IntVetoMCHit where
  sector : Int
  channel : Int
  system : Int
  adc1 : Int := 0
  adc2 : Int := 0
  adc3 : Int := 0
  adc4 : Int := 0
  adc5 : Int := 0
  adc6 : Int := 0
  adc7 : Int := 0
  adc8 : Int := 0
  tdc1 : Int := 0
  tdc2 : Int := 0
  tdc3 : Int := 0
  tdc4 : Int := 0
  tdc5 : Int := 0
  tdc6 : Int := 0
  tdc7 : Int := 0
  tdc8 : Int := 0
  totEdep : ℚ := 0
  deriving DecidableEq, Repr

/-- `ExtVetoMCHit`. -/
structure ExtVetoMCHit where
  sector : Int
  channel : Int
  system : Int
  adc1 : Int := 0
  tdc1 : Int := 0
  adc2 : Int := 0
  tdc2 : Int := 0
  adc3 : Int := 0
  tdc3 : Int := 0
  adc4 : Int := 0
  tdc4 : Int := 0
  totEdep : ℚ := 0
  deriving DecidableEq, Repr

end BdxReco
