import JQServer.ForStd.CSearch

/-!
# The configuration file (`src/server/config_info.c`, `src/server/file_operations.c`)

`read_config_info` reads `config.ini` to a buffer and searches the buffer for each key
word. A pointer into the buffer is the string from there to the NUL. The `malloc` of the
buffer is taken to succeed, and `fread` to return what the file has, up to `len` bytes.
-/

namespace JQServer

/-- `CONFIG_KEY_WORD_BUF_SIZE` -/
def configKeyWordBufSize : Nat := 128

/-- `INI_FILE_BUF_SIZE` -/
def iniFileBufSize : Nat := 10 * 1024

/-- `CONFIG_INFO_KEY_WORD_ID` -/
inductive ConfigInfoKeyWordId
  | version
  | logLevel
  | mysqlBranchServerAddr
  | mysqlServerPort
  | mysqlDbName
  | mysqlUserName
  | mysqlPassword
  deriving DecidableEq

/-- The key words in the order of their numbers. -/
def ConfigInfoKeyWordId.all : List ConfigInfoKeyWordId :=
  [.version, .logLevel, .mysqlBranchServerAddr, .mysqlServerPort, .mysqlDbName, .mysqlUserName,
    .mysqlPassword]

/-- `config_file_key_word` -/
def configFileKeyWord : ConfigInfoKeyWordId → List UInt8
  | .version => CString.ascii "Version"
  | .logLevel => CString.ascii "LogLevel"
  | .mysqlBranchServerAddr => CString.ascii "MySqlBranchServerAddr"
  | .mysqlServerPort => CString.ascii "MySqlServerPort"
  | .mysqlDbName => CString.ascii "MySqlDbName"
  | .mysqlUserName => CString.ascii "MySqlUserName"
  | .mysqlPassword => CString.ascii "MySqlPassword"

/-- `CONFIG_INFO`; `log_level` is a `char`, which is signed. -/
@[ext] structure ConfigInfo where
  version : CharArray 32
  logLevel : Int
  mysqlBranchServerAddr : CharArray 128
  mysqlServerPort : Nat
  mysqlDbName : CharArray 64
  mysqlUserName : CharArray 64
  mysqlPassword : CharArray 64
  deriving DecidableEq

/-- After `bzero`. -/
def ConfigInfo.zero : ConfigInfo where
  version := .zero 32
  logLevel := 0
  mysqlBranchServerAddr := .zero 128
  mysqlServerPort := 0
  mysqlDbName := .zero 64
  mysqlUserName := .zero 64
  mysqlPassword := .zero 64

/-- `read_file_to_buff`: what it reads if it returns 0. `none` is a file that `fopen`
    cannot open. -/
def readFileToBuff (file : Option (List UInt8)) (len : Nat) : Option (List UInt8) :=
  match file with
  | none => none
  | some content => if (content.take len).length > 0 then some (content.take len) else none

/-- `parse_config_key_word`: the string in `key_word` if it returns TRUE. -/
def parseConfigKeyWord (data : List UInt8) : Option (List UInt8) :=
  if CString.strchr 59 data ≠ none ∨ CString.strchr 10 data ≠ none then
    let keyWord := (data.takeWhile fun b => b ≠ 59 && b ≠ 10).take configKeyWordBufSize
    -- The NUL stands at `MIN(i, CONFIG_KEY_WORD_BUF_SIZE-1)`
    some (keyWord.take (min keyWord.length (configKeyWordBufSize - 1)))
  else none

/-- The `switch` of `read_config_info`. -/
def ConfigInfo.set (c : ConfigInfo) (keyWordBuf : List UInt8) : ConfigInfoKeyWordId → ConfigInfo
  | .version => { c with version := .snprintf 32 keyWordBuf }
  | .logLevel => { c with logLevel := (CString.atoi keyWordBuf).bmod (2 ^ 8) }
  | .mysqlBranchServerAddr =>
    { c with mysqlBranchServerAddr := .snprintf 128 keyWordBuf }
  | .mysqlServerPort =>
    { c with mysqlServerPort := (CString.atol keyWordBuf % (2 ^ 32 : Nat)).toNat }
  | .mysqlDbName => { c with mysqlDbName := .snprintf 64 keyWordBuf }
  | .mysqlUserName => { c with mysqlUserName := .snprintf 64 keyWordBuf }
  | .mysqlPassword => { c with mysqlPassword := .snprintf 64 keyWordBuf }

/-- The loop of `read_config_info` over the key words. -/
def readConfigInfoLoop (configFileBuff : List UInt8) :
    List ConfigInfoKeyWordId → ConfigInfo → Int × ConfigInfo
  | [], c => (0, c)
  | index :: rest, c =>
    match CString.strstr (configFileKeyWord index) configFileBuff with
    | none => (-1, c)
    | some p =>
      match CString.strchr 61 p with
      | none => (-1, c)
      | some p =>
        -- Tabs and spaces after the '='
        match parseConfigKeyWord (p.tail.dropWhile fun b => b = 9 || b = 32) with
        | none => readConfigInfoLoop configFileBuff rest c
        | some keyWordBuf => readConfigInfoLoop configFileBuff rest (c.set keyWordBuf index)

/-- `read_config_info`: the result and what `config_info` holds afterwards. -/
def readConfigInfo (file : Option (List UInt8)) (configInfo : ConfigInfo) : Int × ConfigInfo :=
  match readFileToBuff file (iniFileBufSize - 1) with
  | none => (-1, configInfo)
  | some content => readConfigInfoLoop (CString.str content) ConfigInfoKeyWordId.all .zero

end JQServer
