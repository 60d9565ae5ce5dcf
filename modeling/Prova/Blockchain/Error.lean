import Prova.Txscript.Execute

/-!
# Errors of the chain rules (`blockchain/error.go`)

A rule error is its code; the description texts are left out. Besides them the rules can fail with
an `AssertError`, with the error of a package they call, with corrupted stored data, by a panic, or
not come back at all.
-/

namespace Prova

inductive ErrorCode
  | duplicateBlock
  | blockTooBig
  | blockVersionTooOld
  | timeTooOld
  | difficultyTooLow
  | unexpectedDifficulty
  | badHeight
  | badBlockSignature
  | highHash
  | badMerkleRoot
  | badCheckpoint
  | forkTooOld
  | checkpointTimeTooOld
  | noTransactions
  | tooManyTransactions
  | noTxInputs
  | noTxOutputs
  | txTooBig
  | badTxOutValue
  | duplicateTxInputs
  | badTxInput
  | missingTx
  | unfinalizedTx
  | duplicateTx
  | overwriteTx
  | immatureSpend
  | doubleSpend
  | spendTooHigh
  | badFees
  | tooManySigOps
  | firstTxNotCoinbase
  | multipleCoinbases
  | badCoinbaseScriptLen
  | badCoinbaseValue
  | scriptMalformed
  | scriptValidation
  | excessiveChainShare
  | inconsistentBlkSize
  | invalidCoinbase
  | invalidTx
  | invalidValidateKey
  | invalidAdminTx
  | invalidAdminOp
  | feeTooHigh
deriving DecidableEq, Repr

inductive ChainError
  | rule (code : ErrorCode)
  | assertError
  | pubKey (err : PubKeyError)
  | blockNotFound
  | corruption
  | panic
  | diverges
deriving DecidableEq, Repr

end Prova
