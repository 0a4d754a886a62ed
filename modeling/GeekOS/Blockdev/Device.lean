import GeekOS.Blockdev.Lba
import GeekOS.Blockdev.Request

/-!
# Block devices

`struct blockdev`, whose `ops` need not provide every operation, and the functions of `blockdev.c`
that call them. What an operation does is a parameter of the device, and what is left in a request
that has been freed is one of `blockdevReadSync`.
-/

namespace GeekOS.Blockdev

/-- `struct blockdev`, with what its operations do and `none` for those that are null. A request to
read fills a buffer with a value of `B` and is completed with a code, or it is not completed. -/
structure Device (B : Type) where
  id : DeviceId
  postRequest : Option (Lba → U32 → Except BlockFault (ℤ × B))
  getNumBlocks : Option U32
  getBlockSize : Option BlockSize
  close : Option ℤ

/-- Call an operation. -/
def call {α : Type} : Option α → Except BlockFault α
  | some a => .ok a
  | none => .error .nullCall

@[simp]
theorem call_eq_ok {α : Type} {op : Option α} {a : α} : call op = .ok a ↔ op = some a := by
  cases op <;> simp [call]

variable {B : Type} (dev : Device B)

/-- `blockdev_get_num_blocks`. -/
def blockdevGetNumBlocks : Except BlockFault U32 := call dev.getNumBlocks

/-- `blockdev_get_block_size`. -/
def blockdevGetBlockSize : Except BlockFault BlockSize := call dev.getBlockSize

/-- `blockdev_read_sync`: the code and the contents of the buffer. `blockdev_issue_sync` takes the
code of the request for its state, and returns `freedRc`, which it finds in the request behind
`mem_free`. -/
def blockdevReadSync (freedRc : ℤ) (lba : Lba) (numBlocks : U32) : Except BlockFault (ℤ × B) := do
  let postRequest ← call dev.postRequest
  let (state, data) ← postRequest lba numBlocks
  Result.require (state = ReqState.finished.toInt) .finished
  return (freedRc, data)

/-- `blockdev_close`. -/
def blockdevClose : Option (Device B) → Except BlockFault ℤ
  | none => .ok 0
  | some dev => call dev.close

end GeekOS.Blockdev
