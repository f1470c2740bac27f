import UltraNoteCore.Core.Currency

/-!
# The upgrade detector

`BasicUpgradeDetector` (`UpgradeDetector.h`) decides from which height blocks must carry its
target major version. With an upgrade height configured in the currency that height is fixed
and the detector only asserts; otherwise the miners vote with the minor version of their
blocks, and once the share of votes in the last `upgradeVotingWindow` blocks reaches the
threshold the upgrade is scheduled `upgradeWindow` blocks later. The blockchain tells the
detector of every pushed and popped block; the detector reads the block list it is given.

The asserts, the logging and `init` (which on a fresh chain leaves the detector as constructed)
are not modelled.

## Main definitions

* `BasicUpgradeDetector`: the target version and the height at which its vote completed
* `BasicUpgradeDetector.upgradeHeight`, `getNumberOfVotes`, `isVotingComplete`, `blockPushed`,
  `blockPopped`

## Main results

* `BasicUpgradeDetector.blockPushed_of_configured`, `blockPopped_of_undef`: with a configured
  upgrade height pushes change nothing, and without a completed vote neither do pops
-/

namespace UltraNoteCore

/-- `BasicUpgradeDetector`: `m_votingCompleteHeight` is `UNDEF_HEIGHT` while no vote has
completed. -/
structure BasicUpgradeDetector where
  m_targetVersion : UInt8
  m_votingCompleteHeight : UInt32
deriving DecidableEq, Repr

namespace BasicUpgradeDetector

/-- The constructor: no vote has completed. -/
def create (targetVersion : UInt8) : BasicUpgradeDetector := ⟨targetVersion, UNDEF_HEIGHT⟩

variable (c : Currency) (d : BasicUpgradeDetector)

/-- `upgradeHeight`: the configured height, or the end of the upgrade window after the vote. -/
def upgradeHeight : UInt32 :=
  if c.upgradeHeight d.m_targetVersion = UNDEF_HEIGHT then
    if d.m_votingCompleteHeight = UNDEF_HEIGHT then UNDEF_HEIGHT
    else c.calculateUpgradeHeight d.m_votingCompleteHeight
  else c.upgradeHeight d.m_targetVersion

/-- `getNumberOfVotes`: the blocks of the voting window ending at `height` that carry the
previous major version with minor version one. -/
def getNumberOfVotes (blocks : List BlockHeader) (height : UInt32) : Nat :=
  if height.toNat < c.upgradeVotingWindow - 1 then 0
  else
    ((List.range c.upgradeVotingWindow).map
      fun k => height.toNat + 1 - c.upgradeVotingWindow + k).countP fun i =>
        match blocks[i]? with
        | some b =>
          b.majorVersion == d.m_targetVersion - 1 && b.minorVersion == BLOCK_MINOR_VERSION_1
        | none => false

/-- `isVotingComplete`: the votes reach `upgradeVotingThreshold` percent of the window. -/
def isVotingComplete (blocks : List BlockHeader) (height : UInt32) : Bool :=
  decide (c.upgradeVotingThreshold * c.upgradeVotingWindow ≤
    100 * d.getNumberOfVotes c blocks height)

/-- `blockPushed`, given the blocks after the push: without a configured height and before the
vote completed, the vote is counted at the new last block. -/
def blockPushed (blocks : List BlockHeader) : BasicUpgradeDetector :=
  if c.upgradeHeight d.m_targetVersion ≠ UNDEF_HEIGHT then d
  else if d.m_votingCompleteHeight ≠ UNDEF_HEIGHT then d
  else
    let lastBlockHeight := UInt32.ofNat blocks.length - 1
    if d.isVotingComplete c blocks lastBlockHeight then
      { d with m_votingCompleteHeight := lastBlockHeight }
    else d

/-- `blockPopped`, given the blocks after the pop: popping the block at which the vote
completed cancels the upgrade. -/
def blockPopped (blocks : List BlockHeader) : BasicUpgradeDetector :=
  if d.m_votingCompleteHeight ≠ UNDEF_HEIGHT ∧ blocks.length = d.m_votingCompleteHeight.toNat then
    { d with m_votingCompleteHeight := UNDEF_HEIGHT }
  else d

variable {c d}

/-- With an upgrade height in the currency, pushing a block changes nothing. -/
theorem blockPushed_of_configured (h : c.upgradeHeight d.m_targetVersion ≠ UNDEF_HEIGHT)
    (blocks : List BlockHeader) : d.blockPushed c blocks = d := by
  simp [blockPushed, h]

/-- A detector that has not seen a completed vote is left so by a pop. -/
theorem blockPopped_of_undef (h : d.m_votingCompleteHeight = UNDEF_HEIGHT)
    (blocks : List BlockHeader) : d.blockPopped blocks = d := by
  simp [blockPopped, h]

end BasicUpgradeDetector

end UltraNoteCore
