import Prova.Chaincfg.Params

/-!
# The regression test network (`chaincfg/params.go`, `genesis.go`)

The keys, the genesis block and the parameters of the network whose private keys the source
publishes. Keys are given by their coordinates; what the source has is the compressed form.
-/

namespace Prova

namespace RegTest

/-! ### Keys -/

def rootKey1 : PublicKey :=
  ⟨0x5ceeba2ab4a635df2c0301a3d773da06ac5a18a7c3e0d09a795d7e57d233edf1,
    0x001aa641732e6a703be89a7fb8568df05675111fcddd519e0cc6c2dd72cd73f8,
    by decide, by decide, by decide⟩

def rootKey2 : PublicKey :=
  ⟨0x8ef4a121bcaf1b1f175557a12896f8bc93b095e84817f90e9a901cd2113a8202,
    0xd6a56b5ed3fadee66cd3f769b26f8001ecdc209f54853bbcaf63e378a7393b7b,
    by decide, by decide, by decide⟩

def provisionKey1 : PublicKey :=
  ⟨0x48b3b4e579444e6b7cc414510109316c4c9ba7a2a46f50f8dcbb273efb1337ab,
    0x60655fb9ec38584ac3d40f43b8a8c68ef0681b7ac0a286202dc4248657d24c24,
    by decide, by decide, by decide⟩

def provisionKey2 : PublicKey :=
  ⟨0xef86c70ae6afd2dd2f0efb07ea59789c27a1bf43f687b35dac435b539e1337ab,
    0x758d5ede6c9fa17c606a8bd71a1f4efc414c221409fc3753351809929a3aa922,
    by decide, by decide, by decide⟩

def issueKey1 : PublicKey :=
  ⟨0xef7739dc67d38f2804a9c0aa1add89a992ced5f37e580ea8ccbb5742391337ab,
    0xef8d7be345ad49984ac90d6bd6b88ff692b12d4e95b216302381ec5996af4654,
    by decide, by decide, by decide⟩

def issueKey2 : PublicKey :=
  ⟨0x1126d3d6158cf4f47eb2e08d12e9fa46d8da7b7e401220260bdc46446f1337ab,
    0x5a41f19ed664c0876069a94e9edbf6351cf990261e9ce9d20e19ae00c85701b4,
    by decide, by decide, by decide⟩

def validateKey1 : PublicKey :=
  ⟨0x5f5103852bd7d9c9c28e44caf1f7188941e16295062ca4c89928a8ccff993cd3,
    0x0a7d95583c239698eb83d224539ab304f0190be57f6e6157d8972fc454827a99,
    by decide, by decide, by decide⟩

def validateKey2 : PublicKey :=
  ⟨0x65de49399e78020026219492e2a6e1a41e93591b87220ae8a2f3ebf3473dbeef,
    0xf8c0dcc7a51d6a963434e0e9ec9fcfe62caa676c48b49aea687c7c4a9e6bbb1e,
    by decide, by decide, by decide⟩

def validateKey3 : PublicKey :=
  ⟨0x9cb94c99c4700918250c40fa35b7fa0a75a967c9366aa19b8fc354373368beef,
    0x7401559efff9e9b1869faa1d0503ab59ed5339ed67f393a02600c45f761805ef,
    by decide, by decide, by decide⟩

def validateKey4 : PublicKey :=
  ⟨0x1337ab09070254638075c7b59643dce2d60c5260bf5841d2f8cc6f75f6790d4e,
    0xd4cfbfc381ebdb94a433687bdc2116e0c03b0e23c5568bb61799745306c14e0d,
    by decide, by decide, by decide⟩

def validateKey5 : PublicKey :=
  ⟨0x133752072c8bc132679655c671b7953c2edabc575f42d60fa2e4caac09770061,
    0xacab545d3193154da44e5b0b15a5a6e43965656b2424c38e60ee89a308082377,
    by decide, by decide, by decide⟩

def validateKey6 : PublicKey :=
  ⟨0xab82d1531552c5b67e528047542ff9a2550ee4df7a88d67037754069db0541f9,
    0xd7a201b30adb49698c20cc5955aa6b2c050717bf96f29e83d0d27e960010094e,
    by decide, by decide, by decide⟩

def validateKey7 : PublicKey :=
  ⟨0xab8264fdb09480d07b4db2d25db28065d51ea2950da89b7366d13b3c7be25e92,
    0xe721c0f77d200c6b726c8fb30b6ee30f704347b690bf794bb928dc9e1d7ad224,
    by decide, by decide, by decide⟩

def validateKey8 : PublicKey :=
  ⟨0xab829a899bb14365e45099062b9a9543e8c51d4ace1ddfb7ef52320bb6dabbdd,
    0xb2c8c1ef3a476d8547883fae0673c3dfd01acaf93a97211aa9ba0d3988326158,
    by decide, by decide, by decide⟩

def validateKey9 : PublicKey :=
  ⟨0xab8201f1834926a5388ca4157f56008238b84fdcd0bd208647151ef617ac49ed,
    0xc24e57009b486579862670e875564dd0689c35310c6536720358bd6d82acd3ec,
    by decide, by decide, by decide⟩

def validateKey10 : PublicKey :=
  ⟨0xab821a995287881d383718476bf2305dee70174a4727688070701490c526061b,
    0xdd9795aad99ccf23b8c0660607e42605b6d6771b023a6bca0c9ec30a16d43c9e,
    by decide, by decide, by decide⟩

def validateKey11 : PublicKey :=
  ⟨0xab82faed27170fc9c2dc3ab57ebba5c0d2649b6044011c77ca4b27aef05c6e07,
    0xd1db6b3c93453a8f57bee8ab73bd32088f0d800ad16c8440a2eaa3cab140e5fc,
    by decide, by decide, by decide⟩

/-! ### The genesis block -/

/-- `genesisCoinbaseTx`, with one output for each admin thread. -/
def genesisCoinbaseTx : MsgTx where
  version := 1
  txIn := [⟨⟨0, 0xffffffff⟩,
    beBytes 32 0x0000000000000000003580857be175c7d577b85db2e006d5b8914e64abb7871c,
    0xffffffff⟩]
  txOut := [
    ⟨0, [0x00, 0xbb]⟩,
    ⟨0, [0x51, 0xbb]⟩,
    ⟨0, [0x52, 0xbb]⟩]
  lockTime := 0

def regTestGenesisBlock : MsgBlock where
  header := {
    version := 4
    prevBlock := 0
    merkleRoot := 0xbaa83e01de26aeecafecc16f5f5f20f62a3a1bcc800c1b60bac810fab0c8b2d7
    timestamp := 0x58DC307C
    bits := 0x200f0f0f
    height := 0
    size := 326
    nonce := 9
    validatingPubKey := zeroValidatingPubKey
    signature := zeroSignature }
  transactions := [genesisCoinbaseTx]

/-! ### Parameters -/

def adminKeySets : KeySetType → PublicKeySet
  | .root => [rootKey1, rootKey2]
  | .provision => [provisionKey1, provisionKey2]
  | .issue => [issueKey1, issueKey2]
  | .validate =>
    [validateKey1, validateKey2, validateKey3, validateKey4, validateKey5, validateKey6,
      validateKey7, validateKey8, validateKey9, validateKey10, validateKey11]
  | .asp => []

def regressionNetParams : Params where
  genesisBlock := regTestGenesisBlock
  adminKeySets := adminKeySets
  aspKeyIdMap := (AList.singleton 1 rootKey1).insert 2 rootKey2
  powLimit := 0x0f0f0f0f0f0f0f0f0f0f0f0f0f0f0f0f0f0f0f0f0f0f0f0f0f0f0f0f0f0f0f0f
  powLimitBits := 0x200f0f0f
  coinbaseMaturity := 100
  subsidyReductionInterval := 150
  targetTimePerBlock := 60000000000
  checkpoints := []
  blockEnforceNumRequired := 750
  blockRejectNumRequired := 950
  blockUpgradeNumToCheck := 1000
  powAveragingWindow := 31
  powMaxAdjustDown := 32
  powMaxAdjustUp := 16
  chainWindowMaxBlocks := 0
  maximumFeeAmount := 5000000

end RegTest

end Prova
