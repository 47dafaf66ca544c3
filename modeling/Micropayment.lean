import Micropayment.Lib.Fields
import Micropayment.Lib.Keyed
import Micropayment.Lib.Run
import Micropayment.Lib.Tally
import Micropayment.Lib.Prog
import Micropayment.Lib.Footprint
import Micropayment.Lib.Cell
import Micropayment.Lib.Mail
import Micropayment.Text
import Micropayment.Database
import Micropayment.Server
import Micropayment.Wire
import Micropayment.Peer
import Micropayment.World
import Micropayment.Pair
import Micropayment.Pool
import Micropayment.Listener
import Micropayment.Bank
import Micropayment.Schema
import Micropayment.Proof.Ledger
import Micropayment.Proof.Accounts
import Micropayment.Proof.Restart
import Micropayment.Proof.Serial
import Micropayment.Proof.SessionFrame
import Micropayment.Proof.Register
import Micropayment.Proof.Exclusive
import Micropayment.Proof.Strtok
import Micropayment.Proof.Session
import Micropayment.Proof.Orphans
import Micropayment.Proof.Framing
import Micropayment.Proof.Isolation
import Micropayment.Proof.Names
import Micropayment.Proof.ReplySize
import Micropayment.Proof.ListInfo
import Micropayment.Proof.ListRace
import Micropayment.Proof.Authorise
import Micropayment.Proof.Relay
import Micropayment.Proof.Answers
import Micropayment.Proof.Replies
import Micropayment.Proof.Notices
import Micropayment.Proof.Notify
import Micropayment.Proof.Transfer
import Micropayment.Proof.Bounds
import Micropayment.Proof.Payer
import Micropayment.Proof.ReplyFrame
import Micropayment.Proof.Numbers
import Micropayment.Proof.PeerMessage
import Micropayment.Proof.LoginAgree
import Micropayment.Proof.Disjoint
import Micropayment.Proof.Bank
import Micropayment.Proof.Payments
import Micropayment.Proof.Pool
import Micropayment.Proof.PoolStop
import Micropayment.Proof.Listener
import Micropayment.Proof.History
import Micropayment.Proof.Delivery
import Micropayment.Proof.Waiting
import Micropayment.Proof.Books
import Micropayment.Proof.Schema
