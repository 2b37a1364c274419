/-!
# TlUpdates — the TL updates a delivery's payload holds

`T` stands for rendered TL objects (messages, users, chats).  An update of a kind the model does not look into is
`other`.
-/
namespace Crossgram

inductive TlUpdate (T : Type)
  | updateNewMessage (message : T) (pts : Int) (ptsCount : Nat)
  | updateNewChannelMessage (message : T) (pts : Int) (ptsCount : Nat)
  | updateEditMessage (message : T) (pts : Int) (ptsCount : Nat)
  | updateEditChannelMessage (message : T) (pts : Int) (ptsCount : Nat)
  | updateDeleteMessages (messages : List Int) (pts : Int) (ptsCount : Nat)
  | updateDeleteChannelMessages (channelId : Nat) (messages : List Int) (pts : Int) (ptsCount : Nat)
  | updateChannelTooLong (channelId : Nat) (pts : Int)
  | other (update : T)

/-- `tl.RawUpdates`. -/
structure RawUpdates (T : Type) where
  updates : List (TlUpdate T)
  users : List T
  chats : List T
  date : Int
  seq : Nat

namespace TlUpdate

variable {T : Type}

def interval : TlUpdate T → Option (Int × Nat)
  | updateNewMessage _ pts n              => some (pts, n)
  | updateNewChannelMessage _ pts n       => some (pts, n)
  | updateEditMessage _ pts n             => some (pts, n)
  | updateEditChannelMessage _ pts n      => some (pts, n)
  | updateDeleteMessages _ pts n          => some (pts, n)
  | updateDeleteChannelMessages _ _ pts n => some (pts, n)
  | updateChannelTooLong _ _              => none
  | other _                               => none

def deleted : TlUpdate T → List Int
  | updateDeleteMessages messages _ _          => messages
  | updateDeleteChannelMessages _ messages _ _ => messages
  | _                                          => []

def newMessage : TlUpdate T → Option T
  | updateNewMessage message _ _        => some message
  | updateNewChannelMessage message _ _ => some message
  | _                                   => none

def newChannelMessage : TlUpdate T → Option T
  | updateNewChannelMessage message _ _ => some message
  | _                                   => none

end TlUpdate

end Crossgram
