/-!
# Commands to a streaming venue

Each command is one line that ends with a carriage return and a line feed.
-/

namespace RateDesk

inductive FeedCommand where
  | connect (username password : String)
  | disconnect (username password : String)
  | subscribe (platform instrument : String)
  | unsubscribe (platform instrument : String)
deriving DecidableEq, Repr

def FeedCommand.line : FeedCommand → String
  | connect u p => "connect|" ++ u ++ "|" ++ p ++ "\r\n"
  | disconnect u p => "disconnect|" ++ u ++ "|" ++ p ++ "\r\n"
  | subscribe p i => "subscribe|" ++ p ++ "_" ++ i ++ "\r\n"
  | unsubscribe p i => "unsubscribe|" ++ p ++ "_" ++ i ++ "\r\n"

end RateDesk
