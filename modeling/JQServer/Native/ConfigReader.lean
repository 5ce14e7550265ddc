import JQServer.ForStd.Memory
import JQServer.ForStd.Pointer
import JQServer.Native.ConfigInfo

/-!
# The configuration reader in memory (`src/server/config_info.c`)

`read_config_info` with every access to the file buffer and to `key_word_buf`: the four
scans follow pointers into the buffer, and the value is copied character by character.
`none` is a read or a write outside of the two arrays.

`ConfigInfo.lean` says what the same functions do to strings; `readConfigInfo_eq` in
`Spec/ConfigMemory.lean` connects the two.
-/

namespace JQServer

namespace ConfigReader

/-- The loop of `parse_config_key_word`, `p` being the pointer to `data[i]`. -/
def copyKeyWord : List UInt8 → Nat → List UInt8 → Option (Nat × List UInt8)
  | [], i, keyWord => if i < configKeyWordBufSize then none else some (i, keyWord)
  | b :: p, i, keyWord =>
    if i < configKeyWordBufSize then
      if b ≠ 59 ∧ b ≠ 10 then
        (Memory.write keyWord i [b]).bind fun keyWord => copyKeyWord p (i + 1) keyWord
      else some (i, keyWord)
    else some (i, keyWord)

/-- `strchr(p, ';') != NULL || strchr(p, '\n') != NULL` -/
def hasTerminator (p : List UInt8) : Option Bool :=
  (Pointer.strchr 59 p).bind fun semicolon =>
    if semicolon.isSome then some true else (Pointer.strchr 10 p).map Option.isSome

/-- `parse_config_key_word`: its result and `key_word` afterwards. -/
def parseConfigKeyWord (p keyWord : List UInt8) : Option (Bool × List UInt8) := do
  if ← hasTerminator p then
    let (i, keyWord) ← copyKeyWord p 0 keyWord
    let keyWord ← Memory.write keyWord (min i (configKeyWordBufSize - 1)) [0]
    some (true, keyWord)
  else some (false, keyWord)

/-- The loop of `read_config_info` over the key words. -/
def readConfigInfoLoop (configFileBuff : List UInt8) :
    List ConfigInfoKeyWordId → ConfigInfo → List UInt8 → Option (Int × ConfigInfo)
  | [], c, _ => some (0, c)
  | index :: rest, c, keyWordBuf => do
    match ← Pointer.strstr (configFileKeyWord index) configFileBuff with
    | none => some (-1, c)
    | some p =>
      match ← Pointer.strchr 61 p with
      | none => some (-1, c)
      | some p =>
        let p ← Pointer.skip (fun b => b = 9 || b = 32) p.tail
        let (ret, keyWordBuf) ← parseConfigKeyWord p keyWordBuf
        if ret then
          -- `snprintf`, `atoi` and `atol` read the string in `key_word_buf`
          let text ← Pointer.string keyWordBuf
          readConfigInfoLoop configFileBuff rest (c.set text index) keyWordBuf
        else readConfigInfoLoop configFileBuff rest c keyWordBuf

/-- `read_config_info` -/
def readConfigInfo (file : Option (List UInt8)) (configInfo : ConfigInfo) :
    Option (Int × ConfigInfo) :=
  match readFileToBuff file (iniFileBufSize - 1) with
  | none => some (-1, configInfo)
  | some content => do
    let configFileBuff ← Memory.write (List.replicate iniFileBufSize 0) 0 content
    readConfigInfoLoop configFileBuff ConfigInfoKeyWordId.all .zero
      (List.replicate configKeyWordBufSize 0)

end ConfigReader

end JQServer
