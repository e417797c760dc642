import Avbot.Base.Text

/-!
# Groups, members and messages

The plain data of libwebqq's interface.
-/

namespace Avbot

structure QqBuddy where
  uin : Str
  nick : Str
  card : Str
  mflag : BitVec 32
  qqnum : Str
  deriving DecidableEq

structure QqGroup where
  gid : Str
  name : Str
  code : Str
  qqnum : Str
  owner : Str
  deriving DecidableEq

structure QqMsgCface where
  gid : Str
  uin : Str
  vfwebqq : Str
  name : Str
  fileId : Str
  key : Str
  server : Str
  gchatpicurl : Str
  deriving DecidableEq

/-- `webqq::qqMsg`, each type with the members that belong to it. -/
inductive QqMsg where
  | font (font : Str)
  | text (text : Str)
  | face (face : Int)
  | cface (cface : QqMsgCface)
  deriving DecidableEq

end Avbot
