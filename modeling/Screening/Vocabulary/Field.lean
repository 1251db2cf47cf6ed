import Screening.Vocabulary.Named

/-!
# Fields

The attributes of a transaction that a rule may speak of.
-/

namespace Screening

/-- A transaction attribute. -/
inductive Field
  | transactionId
  | senderAccount
  | receiverAccount
  | amount
  | timestamp
  | transactionType
  | merchantCategory
  | location
  | deviceUsed
  | paymentChannel
  | ipAddress
  | deviceHash
  | time
  deriving DecidableEq, Repr

/-- The name of a field in expressions and documents. -/
def Field.name : Field → String
  | transactionId => "TRANSACTION_ID"
  | senderAccount => "SENDER_ACCOUNT"
  | receiverAccount => "RECEIVER_ACCOUNT"
  | amount => "AMOUNT"
  | timestamp => "TIMESTAMP"
  | transactionType => "TRANSACTION_TYPE"
  | merchantCategory => "MERCHANT_CATEGORY"
  | location => "LOCATION"
  | deviceUsed => "DEVICE_USED"
  | paymentChannel => "PAYMENT_CHANNEL"
  | ipAddress => "IP_ADDRESS"
  | deviceHash => "DEVICE_HASH"
  | time => "TIME"

instance : Named Field where
  all := [.transactionId, .senderAccount, .receiverAccount, .amount, .timestamp,
    .transactionType, .merchantCategory, .location, .deviceUsed, .paymentChannel, .ipAddress,
    .deviceHash, .time]
  name := Field.name
  mem_all := by intro a; cases a <;> decide
  name_injective := by intro a b; cases a <;> cases b <;> decide

end Screening
